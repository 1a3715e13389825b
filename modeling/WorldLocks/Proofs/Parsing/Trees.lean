import WorldLocks.Lock.Parser
import WorldLocks.Proofs.Trimming

/-! The trees that have a text of their own.  What may stand in a leaf depends on where its text will
stand: a bare name must not start with a mark, since the mark would be read as an operator. -/

set_option autoImplicit false

namespace WorldLocks

open Cursor

/-- Whether a text starts with a character of a kind. -/
def Text.begins (kind : Char → Bool) (text : Text) : Bool := text.head?.any kind

theorem Text.begins_eq_false_iff {kind : Char → Bool} {text : Text} :
    text.begins kind = false ↔ ∀ c ∈ text.head?, kind c = false := by
  cases text <;> simp [begins]

namespace LockExpr

/-! ## Names and patterns -/

/-- What can be written as the name of an object. -/
structure IsName (name : Text) : Prop where
  trimmed : Text.Trimmed name
  unmarked : ∀ c ∈ name, isRightMark c = false

/-- What can be written as the name of an attribute, which may have dots. -/
structure IsAttrName (name : Text) : Prop where
  trimmed : Text.Trimmed name
  unmarked : ∀ c ∈ name, (c == '.' || !isRightMark c) = true

structure IsPattern (pattern : Text) : Prop where
  trimmed : Text.Trimmed pattern
  unended : ∀ c ∈ pattern, endsPattern c = false

-- The characters of a name are gone through one by one, never all characters there are.
instance (name : Text) : Decidable (IsName name) :=
  have := List.decidableBAll (isRightMark · = false) name
  decidable_of_iff (Text.Trimmed name ∧ ∀ c ∈ name, isRightMark c = false)
    ⟨fun ⟨trimmed, unmarked⟩ => ⟨trimmed, unmarked⟩, fun is => ⟨is.trimmed, is.unmarked⟩⟩

instance (name : Text) : Decidable (IsAttrName name) :=
  have := List.decidableBAll (fun c => (c == '.' || !isRightMark c) = true) name
  decidable_of_iff (Text.Trimmed name ∧ ∀ c ∈ name, (c == '.' || !isRightMark c) = true)
    ⟨fun ⟨trimmed, unmarked⟩ => ⟨trimmed, unmarked⟩, fun is => ⟨is.trimmed, is.unmarked⟩⟩

instance (pattern : Text) : Decidable (IsPattern pattern) :=
  have := List.decidableBAll (endsPattern · = false) pattern
  decidable_of_iff (Text.Trimmed pattern ∧ ∀ c ∈ pattern, endsPattern c = false)
    ⟨fun ⟨trimmed, unended⟩ => ⟨trimmed, unended⟩, fun is => ⟨is.trimmed, is.unended⟩⟩

/-! ## Induction -/

/-- Induction over a tree, with one hypothesis for all terms under an operator. -/
@[induction_eliminator]
theorem induction {motive : LockExpr → Prop}
    (or : ∀ terms, (∀ term ∈ terms, motive term) → motive (.or terms))
    (and : ∀ terms, (∀ term ∈ terms, motive term) → motive (.and terms))
    (not : ∀ inner, motive inner → motive (.not inner)) (number : ∀ value, motive (.number value))
    (attrTest : ∀ name pattern, motive (.attrTest name pattern))
    (ref : ∀ kind name, motive (.ref kind name)) (indirect : ∀ name, motive (.indirect name))
    (indirectLock : ∀ name, motive (.indirectLock name))
    (indirectAttr : ∀ target test, motive (.indirectAttr target test)) (tooDeep : motive .tooDeep)
    (tree : LockExpr) : motive tree :=
  @LockExpr.rec motive (fun terms => ∀ term ∈ terms, motive term) or and not number attrTest ref
    indirect indirectLock indirectAttr tooDeep (by simp)
    (fun _ _ here later => List.forall_mem_cons.mpr ⟨here, later⟩) tree

/-! ## Nodes -/

mutual

/-- The nodes of a tree without its root, each before those below it. -/
def descendants : LockExpr → List LockExpr
  | .or terms | .and terms => nodesIn terms
  | .not inner => inner :: descendants inner
  | .number _ | .attrTest .. | .ref .. | .indirect _ | .indirectLock _ | .indirectAttr ..
  | .tooDeep => []

def nodesIn : List LockExpr → List LockExpr
  | [] => []
  | term :: later => term :: (descendants term ++ nodesIn later)

end

def nodes (tree : LockExpr) : List LockExpr := tree :: descendants tree

mutual

/-- How many operators enclose one another. -/
def nesting : LockExpr → Nat
  | .or terms | .and terms => nestingIn terms + 1
  | .not inner => nesting inner + 1
  | .number _ | .attrTest .. | .ref .. | .indirect _ | .indirectLock _ | .indirectAttr ..
  | .tooDeep => 0

def nestingIn : List LockExpr → Nat
  | [] => 0
  | term :: later => max (nesting term) (nestingIn later)

end

/-- What holds of every node that is read from a text. -/
def Tidy : LockExpr → Prop
  | .or terms | .and terms => 2 ≤ terms.length
  | .not _ | .tooDeep => True
  | .number value => 0 ≤ value ∧ value ≤ Text.maxWord64
  | .attrTest name pattern =>
    IsAttrName name ∧ name.begins Text.isDigit = false ∧ IsPattern pattern
  | .ref kind name =>
    IsName name ∧ name.begins Text.isDigit = false ∧
      (kind = .any → name.begins isLeftMark = false)
  | .indirect name => IsName name ∧ name.head? ≠ some '('
  | .indirectLock name | .indirectAttr name none => IsName name
  | .indirectAttr target (some (name, pattern)) =>
    IsName target ∧ IsAttrName name ∧ IsPattern pattern

instance : DecidablePred Tidy := fun
  | .or terms | .and terms => inferInstanceAs (Decidable (2 ≤ terms.length))
  | .not _ | .tooDeep => inferInstanceAs (Decidable True)
  | .number value => inferInstanceAs (Decidable (0 ≤ value ∧ value ≤ (Text.maxWord64 : Int)))
  | .attrTest name pattern => inferInstanceAs
      (Decidable (IsAttrName name ∧ name.begins Text.isDigit = false ∧ IsPattern pattern))
  | .ref kind name => inferInstanceAs
      (Decidable (IsName name ∧ name.begins Text.isDigit = false ∧
        (kind = .any → name.begins isLeftMark = false)))
  | .indirect name => inferInstanceAs (Decidable (IsName name ∧ name.head? ≠ some '('))
  | .indirectLock name | .indirectAttr name none => inferInstanceAs (Decidable (IsName name))
  | .indirectAttr target (some (name, pattern)) => inferInstanceAs
      (Decidable (IsName target ∧ IsAttrName name ∧ IsPattern pattern))

/-- No test of the one who wants to pass has a name that starts like an operator. -/
def Unmarked (tree : LockExpr) : Prop :=
  ∀ name pattern, .attrTest name pattern ∈ tree.nodes → name.begins isLeftMark = false

/-- A tree of the kind that is read with so many operators allowed to enclose one another. -/
structure Regular (limit : Nat) (tree : LockExpr) : Prop where
  tidy : ∀ node ∈ tree.nodes, node.Tidy
  complete : .tooDeep ∉ tree.nodes
  shallow : tree.nesting ≤ limit

/-- A tree that can be read from its own text. -/
structure Legible (limit : Nat) (tree : LockExpr) : Prop extends Regular limit tree where
  unmarked : Unmarked tree

abbrev WellFormed (tree : LockExpr) : Prop := Legible maxNesting tree

/-! ## Parts -/

/-- A tree that stands below the root of another one. -/
structure Part (part tree : LockExpr) : Prop where
  nodes : part.nodes ⊆ tree.nodes
  nesting : part.nesting < tree.nesting

variable {tree branch term inner : LockExpr} {terms : List LockExpr} {limit : Nat}

theorem mem_nodes_self (tree : LockExpr) : tree ∈ tree.nodes := List.mem_cons_self

theorem nodesIn_eq_flatMap (terms : List LockExpr) : nodesIn terms = terms.flatMap nodes := by
  induction terms with
  | nil => rfl
  | cons term later ih =>
      rw [nodesIn, ih, List.flatMap_cons, ← List.cons_append]
      rfl

theorem mem_nodesIn {node : LockExpr} :
    node ∈ nodesIn terms ↔ ∃ term ∈ terms, node ∈ term.nodes := by
  rw [nodesIn_eq_flatMap, List.mem_flatMap]

theorem nodes_subset_of_mem (member : term ∈ terms) : term.nodes ⊆ nodesIn terms :=
  fun _ inside => mem_nodesIn.mpr ⟨term, member, inside⟩

theorem nesting_le_of_mem (member : term ∈ terms) : term.nesting ≤ nestingIn terms := by
  induction terms with
  | nil => cases member
  | cons first later ih =>
      rw [nestingIn]
      rcases List.mem_cons.mp member with rfl | behind
      · exact Nat.le_max_left _ _
      · exact (ih behind).trans (Nat.le_max_right _ _)

namespace Part

theorem not_inner (inner : LockExpr) : Part inner (.not inner) where
  nodes := by
    rw [LockExpr.nodes, LockExpr.nodes, descendants]
    exact List.subset_cons_self _ _
  nesting := by
    rw [LockExpr.nesting]
    exact Nat.lt_succ_self _

theorem or_term (member : term ∈ terms) : Part term (.or terms) where
  nodes := by
    rw [LockExpr.nodes.eq_def (.or terms), descendants]
    exact List.Subset.trans (nodes_subset_of_mem member) (List.subset_cons_self _ _)
  nesting := by
    rw [LockExpr.nesting]
    exact Nat.lt_succ_of_le (nesting_le_of_mem member)

theorem and_term (member : term ∈ terms) : Part term (.and terms) where
  nodes := by
    rw [LockExpr.nodes.eq_def (.and terms), descendants]
    exact List.Subset.trans (nodes_subset_of_mem member) (List.subset_cons_self _ _)
  nesting := by
    rw [LockExpr.nesting]
    exact Nat.lt_succ_of_le (nesting_le_of_mem member)

end Part

theorem Unmarked.part (unmarked : Unmarked tree) (below : Part branch tree) : Unmarked branch :=
  fun name pattern member => unmarked name pattern (below.nodes member)

theorem Regular.part (regular : Regular (limit + 1) tree) (below : Part branch tree) :
    Regular limit branch where
  tidy := fun node member => regular.tidy node (below.nodes member)
  complete := fun member => regular.complete (below.nodes member)
  shallow := Nat.le_of_lt_succ (Nat.lt_of_lt_of_le below.nesting regular.shallow)

theorem Legible.part (legible : Legible (limit + 1) tree) (below : Part branch tree) :
    Legible limit branch :=
  ⟨legible.toRegular.part below, legible.unmarked.part below⟩

/-- An operator needs a level of nesting for itself. -/
theorem Regular.exists_limit (regular : Regular limit tree) (nested : 0 < tree.nesting) :
    ∃ fewer, limit = fewer + 1 := by
  have deep := Nat.lt_of_lt_of_le nested regular.shallow
  exact ⟨limit - 1, by omega⟩

/-! ## Leaves -/

def isLeaf : LockExpr → Bool
  | .or _ | .and _ | .not _ => false
  | .number _ | .attrTest .. | .ref .. | .indirect _ | .indirectLock _ | .indirectAttr ..
  | .tooDeep => true

def leavesIn (terms : List LockExpr) : List LockExpr := (nodesIn terms).filter isLeaf

/-- The leaves of a tree, in order. -/
def leaves (tree : LockExpr) : List LockExpr := tree.nodes.filter isLeaf

@[simp] theorem leaves_or (terms : List LockExpr) :
    (LockExpr.or terms).leaves = leavesIn terms := by
  simp [leaves, leavesIn, nodes, descendants, isLeaf]

@[simp] theorem leaves_and (terms : List LockExpr) :
    (LockExpr.and terms).leaves = leavesIn terms := by
  simp [leaves, leavesIn, nodes, descendants, isLeaf]

@[simp] theorem leaves_not (inner : LockExpr) : (LockExpr.not inner).leaves = inner.leaves := by
  simp [leaves, nodes, descendants, isLeaf]

theorem leavesIn_cons (term : LockExpr) (later : List LockExpr) :
    leavesIn (term :: later) = term.leaves ++ leavesIn later := by
  rw [leavesIn, nodesIn_eq_flatMap, List.flatMap_cons, List.filter_append, ← nodesIn_eq_flatMap]
  rfl

theorem leavesIn_singleton (term : LockExpr) : leavesIn [term] = term.leaves := by
  rw [leavesIn_cons]
  exact List.append_nil _

theorem leaves_chain {combine : List LockExpr → LockExpr}
    (combines : ∀ terms, (combine terms).leaves = leavesIn terms) (terms : List LockExpr) :
    (chain combine terms).leaves = leavesIn terms := by
  unfold chain
  split
  · exact (leavesIn_singleton _).symm
  · exact combines terms

/-! ## Tokens -/

mutual

/-- The tokens of the text of a tree, in order.  A name may be empty, and so may the mark before
one. -/
def tokens : LockExpr → List Text
  | .or terms => ['('] :: tokensIn '|' terms ++ [[')']]
  | .and terms => ['('] :: tokensIn '&' terms ++ [[')']]
  | .not inner => ['!'] :: tokens inner
  | .number value => [Text.ofInt value]
  | .attrTest name pattern => [name, [':'], pattern]
  | .ref kind name => [refMark kind, name]
  | .indirect name => [['@'], name]
  | .indirectLock name => [['@'], ['('], name, [')']]
  | .indirectAttr target (some (name, pattern)) =>
    [['@'], ['('], target, ['='], name, [':'], pattern, [')']]
  | .indirectAttr target none => [['@'], ['('], target, ['='], [')']]
  | .tooDeep => [['0']]

def tokensIn (operator : Char) : List LockExpr → List Text
  | [] => []
  | [term] => tokens term
  | term :: next :: later => tokens term ++ [operator] :: tokensIn operator (next :: later)

end

mutual

/-- The tokens of a tree make up its text. -/
theorem flatten_tokens : ∀ tree : LockExpr, tree.tokens.flatten = tree.render
  | .or terms => by simp [tokens, render, flatten_tokensIn '|' terms]
  | .and terms => by simp [tokens, render, flatten_tokensIn '&' terms]
  | .not inner => by simp [tokens, render, flatten_tokens inner]
  | .number _ | .attrTest .. | .ref .. | .indirect _ | .indirectLock _ | .indirectAttr _ none
  | .indirectAttr _ (some (_, _)) | .tooDeep => by simp [tokens, render, testText]

theorem flatten_tokensIn (operator : Char) :
    ∀ terms : List LockExpr, (tokensIn operator terms).flatten = renderTerms operator terms
  | [] => by simp [tokensIn, renderTerms]
  | [term] => by simp [tokensIn, renderTerms, flatten_tokens term]
  | term :: next :: later => by
      simp [tokensIn, renderTerms, flatten_tokens term, flatten_tokensIn operator (next :: later)]

end

end LockExpr
end WorldLocks
