import WorldLocks.Proofs.Parsing.Spacing
import WorldLocks.Proofs.Parsing.Tidy

/-! When the canonical text of a lock reads back as the same tree.  It does unless a test in the
lock has a name that starts like an operator, which a mark in front of the test lets through.  The
text of such a test is read as the operator, and the first leaf behind it has a shorter name.  What
was read before stays, so the leaves of the two trees differ from that place on.  They differ in the
same way where operators are nested too deeply and the text is given up. -/

set_option autoImplicit false

namespace WorldLocks

open Cursor

namespace LockExpr

variable {tree found : LockExpr} {terms : List LockExpr} {name pattern ahead more : Text}
  {reader : Reader} {limit : Nat} {inGroup : Bool}

/-! ## Departures -/

/-- What was found differs from what was expected at some place, whatever follows. -/
def Departs (expected found : List LockExpr) : Prop := ∀ later, ¬ expected <+: found ++ later

namespace Departs

variable {expected found rest shared : List LockExpr}

theorem ne (departs : Departs expected found) : found ≠ expected := by
  rintro rfl
  exact departs [] (List.prefix_append _ _)

theorem extend (departs : Departs expected found) (grows : found <+: rest) :
    Departs expected rest := by
  obtain ⟨added, rfl⟩ := grows
  intro later
  rw [List.append_assoc]
  exact departs _

theorem append (departs : Departs expected found) (others : List LockExpr) :
    Departs (expected ++ others) found :=
  fun later starts => departs later ((List.prefix_append _ _).trans starts)

theorem behind (departs : Departs expected found) (shared : List LockExpr) :
    Departs (shared ++ expected) (shared ++ found) := by
  intro later starts
  rw [List.append_assoc, List.prefix_append_right_inj] at starts
  exact departs later starts

end Departs

/-! ## Chains -/

theorem readTerms_eq_cons (operator : Char) (inGroup : Bool) (reader : Reader) (bound : Nat)
    (ahead : Text) :
    ∃ others, (readTerms operator inGroup reader bound ahead).1 = (reader ahead).1 :: others := by
  unfold readTerms
  dsimp only
  split
  · exact ⟨_, rfl⟩
  · exact ⟨_, rfl⟩

/-- A chain starts with the leaves of its first term. -/
theorem leaves_readChain {combine : List LockExpr → LockExpr}
    (combines : ∀ terms, (combine terms).leaves = leavesIn terms) (operator : Char) (inGroup : Bool)
    (reader : Reader) (ahead : Text) :
    (reader ahead).1.leaves <+: (readChain operator combine inGroup reader ahead).1.leaves := by
  obtain ⟨others, terms⟩ := readTerms_eq_cons operator inGroup reader ahead.length ahead
  unfold readChain
  dsimp only
  rw [leaves_chain combines, terms, leavesIn_cons]
  exact List.prefix_append _ _

theorem leaves_readAlternatives (inGroup : Bool) (reader : Reader) (ahead : Text) :
    (reader ahead).1.leaves <+: (readAlternatives inGroup reader ahead).1.leaves :=
  (leaves_readChain leaves_and '&' inGroup reader ahead).trans
    (leaves_readChain leaves_or '|' inGroup _ ahead)

/-! ## The first leaf -/

/-- The first leaf of a tree is no test whose name is longer than some length. -/
def StartsShort (length : Nat) (tree : LockExpr) : Prop :=
  ∃ leaf later, tree.leaves = leaf :: later ∧
    ∀ name pattern, leaf = .attrTest name pattern → name.length ≤ length

theorem StartsShort.extend {length longer : Nat} (short : StartsShort length tree)
    (grows : tree.leaves <+: found.leaves) (bounded : length ≤ longer) :
    StartsShort longer found := by
  obtain ⟨leaf, later, leaves, names⟩ := short
  obtain ⟨added, split⟩ := grows
  rw [leaves] at split
  exact ⟨leaf, later ++ added, split.symm, fun name pattern same =>
    (names name pattern same).trans bounded⟩

theorem startsShort_of_leaf {length : Nat} {leaf : LockExpr} (alone : leaf.leaves = [leaf])
    (names : ∀ name pattern, leaf = .attrTest name pattern → name.length ≤ length) :
    StartsShort length leaf := ⟨leaf, [], alone, names⟩

theorem readIndirect_startsShort (length : Nat) (ahead : Text) :
    StartsShort length (readIndirect ahead).1 := by
  unfold readIndirect
  dsimp only
  repeat' split
  all_goals exact startsShort_of_leaf rfl (by simp)

theorem skipBlanks_test (name more : Text) :
    skipBlanks (name ++ ':' :: more) = Text.trimStart name ++ ':' :: more :=
  Text.trimStart_append (by simp [show Text.isBlank ':' = false from by decide]) name

theorem readSubject_startsShort (kind : RefKind)
    (named : ∀ c ∈ name, (c == '.' || !isRightMark c) = true) :
    StartsShort name.length (readSubject kind (name ++ ':' :: more)).1 := by
  have reads := attrTest?_colon
    (fun c member => named c ((List.dropWhile_sublist Text.isBlank).subset member)) more
  unfold readSubject
  dsimp only
  rw [skipBlanks_test, Text.trimStart, reads]
  split
  · exact startsShort_of_leaf rfl (by simp)
  · refine startsShort_of_leaf rfl fun shorter pattern same => ?_
    obtain ⟨rfl, -⟩ := LockExpr.attrTest.inj same
    exact (Text.length_trim_le _).trans (List.dropWhile_sublist _).length_le

/-- Behind a mark, a test is read with what is left of its name. -/
theorem readAtom_startsShort_of_mark {c : Char} (marked : isLeftMark c = true)
    (named : ∀ d ∈ c :: name, (d == '.' || !isRightMark d) = true)
    (below : ∀ fewer < limit, ∀ inGroup,
      StartsShort name.length (readAtom fewer inGroup (name ++ ':' :: more)).1)
    (starts : skipBlanks ahead = c :: (name ++ ':' :: more)) :
    StartsShort name.length (readAtom limit inGroup ahead).1 := by
  have exhausted : StartsShort name.length .tooDeep := startsShort_of_leaf rfl (by simp)
  rcases eq_of_isLeftMark marked with rfl | rfl | rfl | rfl | rfl
  · cases limit with
    | zero => rwa [readAtom_exhausted (.inr starts)]
    | succ fewer =>
        rw [readAtom_not starts]
        exact (below fewer (Nat.lt_succ_self fewer) inGroup).extend (by simp) (Nat.le_refl _)
  · cases limit with
    | zero => rwa [readAtom_exhausted (.inl starts)]
    | succ fewer =>
        rw [readAtom_group starts]
        exact (below fewer (Nat.lt_succ_self fewer) true).extend
          (leaves_readAlternatives true _ _) (Nat.le_refl _)
  · rw [readAtom_indirect starts]
    exact readIndirect_startsShort _ _
  · have notEquals := named '=' List.mem_cons_self
    simp [isRightMark] at notEquals
  · rw [readAtom_carries starts]
    exact readSubject_startsShort .carries fun d member => named d (List.mem_cons_of_mem _ member)

theorem readAtom_startsShort (named : ∀ c ∈ name, (c == '.' || !isRightMark c) = true)
    (limit : Nat) (inGroup : Bool) :
    StartsShort name.length (readAtom limit inGroup (name ++ ':' :: more)).1 := by
  induction limit using Nat.strongRecOn generalizing name inGroup with
  | ind limit ih =>
      have begins := skipBlanks_test name more
      have solid : ∀ c ∈ Text.trimStart name, (c == '.' || !isRightMark c) = true :=
        fun c member => named c ((List.dropWhile_sublist _).subset member)
      have shorter : (Text.trimStart name).length ≤ name.length :=
        (List.dropWhile_sublist _).length_le
      cases left : Text.trimStart name with
      | nil =>
          rw [left] at begins
          rw [readAtom_bare limit inGroup (by simp [begins, isLeftMark])]
          exact readSubject_startsShort .any named
      | cons c tail =>
          rw [left] at begins solid shorter
          cases marked : isLeftMark c with
          | false =>
              rw [readAtom_bare limit inGroup (by simpa [begins] using marked)]
              exact readSubject_startsShort .any named
          | true =>
              have inside : ∀ d ∈ tail, (d == '.' || !isRightMark d) = true :=
                fun d member => solid d (List.mem_cons_of_mem _ member)
              have short : StartsShort tail.length
                  (readAtom limit inGroup (name ++ ':' :: more)).1 :=
                readAtom_startsShort_of_mark marked solid
                  (fun fewer less inGroup => ih fewer less inside inGroup) begins
              exact short.extend List.prefix_rfl (Nat.le_of_succ_le shorter)

/-! ## Marked tests -/

/-- A tree with a test whose name starts like an operator. -/
def Marked (tree : LockExpr) : Prop :=
  ∃ name pattern, .attrTest name pattern ∈ tree.nodes ∧ name.begins isLeftMark = true

theorem unmarked_or_marked (tree : LockExpr) : tree.Unmarked ∨ tree.Marked := by
  by_cases unmarked : tree.Unmarked
  · exact .inl unmarked
  · refine .inr ?_
    simpa [Unmarked, Marked] using unmarked

/-- A tree that cannot be read with so many operators allowed to enclose one another: it is nested
too deeply or has a marked test. -/
def Illegible (limit : Nat) (tree : LockExpr) : Prop := limit < tree.nesting ∨ tree.Marked

theorem Regular.legible_or_illegible {bound : Nat} (regular : Regular bound tree) (limit : Nat) :
    Legible limit tree ∨ tree.Illegible limit := by
  rcases Nat.lt_or_ge limit tree.nesting with deep | shallow
  · exact .inr (.inl deep)
  · rcases unmarked_or_marked tree with unmarked | marked
    · exact .inl ⟨⟨regular.tidy, regular.complete, shallow⟩, unmarked⟩
    · exact .inr (.inr marked)

/-- The text of a tree is not read with the leaves of the tree, whatever stands behind it. -/
def Misread (reader : Reader) (tree : LockExpr) : Prop :=
  ∀ rest, Departs tree.leaves (reader (tree.render ++ rest)).1.leaves

/-- The text of a term is either misread or, before an operator and before the mark that closes its
group, read as the term. -/
def ReadOrMisread (reader : Reader) (operator : Char) (term : LockExpr) : Prop :=
  Misread reader term ∨ ∀ (c : Char) (later : Text), c = operator ∨ c = ')' →
    ReadsAs reader term (term.render ++ c :: later) (c :: later)

theorem readAtom_misreads_test (named : IsAttrName name)
    (marked : name.begins isLeftMark = true) (pattern : Text) (limit : Nat) (inGroup : Bool) :
    Misread (readAtom limit inGroup) (.attrTest name pattern) := by
  intro rest later starts
  obtain ⟨c, tail, rfl⟩ : ∃ c tail, name = c :: tail := by
    cases name with
    | nil => cases marked
    | cons c tail => exact ⟨c, tail, rfl⟩
  have solid : Text.isBlank c = false := named.trimmed.head (by simp)
  have ahead : skipBlanks ((LockExpr.attrTest (c :: tail) pattern).render ++ rest) =
      c :: (tail ++ ':' :: (pattern ++ rest)) := by
    simp [render, testText, skipBlanks, Text.trimStart, solid]
  have inside : ∀ d ∈ tail, (d == '.' || !isRightMark d) = true :=
    fun d member => named.unmarked d (List.mem_cons_of_mem _ member)
  obtain ⟨leaf, others, leaves, names⟩ : StartsShort tail.length
      (readAtom limit inGroup ((LockExpr.attrTest (c :: tail) pattern).render ++ rest)).1 :=
    readAtom_startsShort_of_mark marked named.unmarked
      (fun fewer _ inGroup => readAtom_startsShort inside fewer inGroup) ahead
  rw [leaves] at starts
  -- The two leaves would be the same test, whose name would be longer than itself.
  have same : LockExpr.attrTest (c :: tail) pattern = leaf := (List.cons_prefix_cons.mp starts).1
  exact absurd (names _ _ same.symm) (Nat.not_succ_le_self _)

/-- A chain whose terms are read well up to one that is not departs at that term. -/
theorem readTerms_departs {operator : Char} {bound : Nat}
    (each : ∀ term ∈ terms, ReadOrMisread reader operator term)
    (misread : ∃ term ∈ terms, Misread reader term)
    (enough : (renderTerms operator terms ++ ')' :: more).length ≤ bound) :
    Departs (leavesIn terms) (leavesIn
      (readTerms operator true reader bound (renderTerms operator terms ++ ')' :: more)).1) := by
  induction terms generalizing bound with
  | nil => simp at misread
  | cons first later ih =>
      have atFirst (departs : Misread reader first) (bound : Nat) (rest : Text) :
          Departs (leavesIn (first :: later))
            (leavesIn (readTerms operator true reader bound (first.render ++ rest)).1) := by
        obtain ⟨others, read⟩ := readTerms_eq_cons operator true reader bound (first.render ++ rest)
        rw [read, leavesIn_cons, leavesIn_cons]
        exact ((departs rest).append _).extend (List.prefix_append _ _)
      cases later with
      | nil =>
          obtain ⟨term, member, departs⟩ := misread
          obtain rfl := List.mem_singleton.mp member
          exact atFirst departs _ _
      | cons next others =>
          have written : renderTerms operator (first :: next :: others) ++ ')' :: more =
              first.render ++ operator :: (renderTerms operator (next :: others) ++ ')' :: more) := by
            simp [renderTerms]
          rw [written] at enough ⊢
          obtain ⟨here, behind⟩ := List.forall_mem_cons.mp each
          rcases here with departs | reads
          · exact atFirst departs _ _
          obtain ⟨term, member, departs⟩ := misread
          rcases List.mem_cons.mp member with rfl | later
          · exact atFirst departs _ _
          rw [List.length_append, List.length_cons] at enough
          obtain ⟨bound, rfl⟩ : ∃ fewer, bound = fewer + 1 := ⟨bound - 1, by omega⟩
          have shorter : (renderTerms operator (next :: others) ++ ')' :: more).length ≤ bound := by
            omega
          rw [readTerms_more (reads operator _ (.inl rfl)), leavesIn_cons first]
          dsimp only
          rw [leavesIn_cons first]
          exact (ih behind ⟨term, later, departs⟩ shorter).behind first.leaves

theorem Misread.readChain {combine : List LockExpr → LockExpr}
    (combines : ∀ terms, (combine terms).leaves = leavesIn terms) (misread : Misread reader tree)
    (operator : Char) (inGroup : Bool) : Misread (readChain operator combine inGroup reader) tree :=
  fun rest => (misread rest).extend (leaves_readChain combines operator inGroup reader _)

theorem readChain_departs {operator : Char} {combine : List LockExpr → LockExpr}
    (combines : ∀ terms, (combine terms).leaves = leavesIn terms)
    (each : ∀ term ∈ terms, ReadOrMisread reader operator term)
    (misread : ∃ term ∈ terms, Misread reader term) (more : Text) :
    Departs (leavesIn terms)
      (LockExpr.readChain operator combine true reader
        (renderTerms operator terms ++ ')' :: more)).1.leaves := by
  unfold LockExpr.readChain
  dsimp only
  rw [leaves_chain combines]
  exact readTerms_departs each misread (Nat.le_refl _)

/-- A tree is read from its canonical text. -/
theorem readAtom_render (legible : Legible limit tree) {rest : Text} (ended : Ended rest) :
    ReadsAs (readAtom limit inGroup) tree (tree.render ++ rest) rest := by
  rw [← flatten_tokens]
  exact readAtom_spaced legible (.compact _) ended

theorem readOrMisread_of_regular {term : LockExpr} {operator : Char} {bound : Nat}
    (regular : Regular bound term)
    (misreads : term.Illegible limit → Misread (readAtom limit true) term)
    (ends : endsPattern operator = true) :
    ReadOrMisread (readAtom limit true) operator term := by
  rcases regular.legible_or_illegible limit with legible | illegible
  · refine .inr fun c later next => readAtom_render legible ?_
    rcases next with rfl | rfl
    · simpa [Ended] using ends
    · simp [Ended, endsPattern]
  · exact .inl (misreads illegible)

theorem ReadOrMisread.readChain {term : LockExpr} {operator weaker : Char}
    {combine : List LockExpr → LockExpr}
    (combines : ∀ terms, (combine terms).leaves = leavesIn terms)
    (reads : ReadOrMisread reader weaker term) (differs : weaker ≠ operator)
    (opens : operator ≠ ')') :
    ReadOrMisread (LockExpr.readChain operator combine true reader) weaker term := by
  rcases reads with misread | reads
  · exact .inl (misread.readChain combines operator true)
  · refine .inr fun c later next => (reads c later next).readChain combine (by simp) ?_
    rcases next with rfl | rfl
    · simpa using differs
    · simpa using opens.symm

theorem exists_of_lt_nestingIn (deep : limit < nestingIn terms) :
    ∃ term ∈ terms, limit < term.nesting := by
  induction terms with
  | nil => exact absurd deep (Nat.not_lt_zero _)
  | cons term later ih =>
      rw [nestingIn] at deep
      by_cases here : limit < term.nesting
      · exact ⟨term, List.mem_cons_self, here⟩
      · obtain ⟨other, member, here⟩ := ih (by omega)
        exact ⟨other, List.mem_cons_of_mem _ member, here⟩

theorem Marked.term (marked : tree.Marked) (below : tree.descendants = nodesIn terms)
    (inner : ∀ name pattern, tree ≠ .attrTest name pattern) : ∃ term ∈ terms, term.Marked := by
  obtain ⟨name, pattern, member, begins⟩ := marked
  rw [nodes, below] at member
  rcases List.mem_cons.mp member with same | member
  · exact absurd same.symm (inner name pattern)
  · obtain ⟨term, inside, here⟩ := mem_nodesIn.mp member
    exact ⟨term, inside, name, pattern, here, begins⟩

theorem Marked.inner {inner : LockExpr} (marked : (LockExpr.not inner).Marked) : inner.Marked := by
  obtain ⟨name, pattern, member, begins⟩ := marked
  rw [nodes, descendants] at member
  rcases List.mem_cons.mp member with same | below
  · cases same
  · exact ⟨name, pattern, below, begins⟩

theorem Marked.leaf {leaf : LockExpr} (marked : leaf.Marked) (alone : leaf.nodes = [leaf]) :
    ∃ name pattern, leaf = .attrTest name pattern ∧ name.begins isLeftMark = true := by
  obtain ⟨name, pattern, member, begins⟩ := marked
  rw [alone, List.mem_singleton] at member
  exact ⟨name, pattern, member.symm, begins⟩

theorem Illegible.term (illegible : tree.Illegible (limit + 1))
    (nests : tree.nesting = nestingIn terms + 1) (below : tree.descendants = nodesIn terms)
    (inner : ∀ name pattern, tree ≠ .attrTest name pattern) :
    ∃ term ∈ terms, term.Illegible limit := by
  rcases illegible with deep | marked
  · obtain ⟨term, member, deep⟩ := exists_of_lt_nestingIn (by omega : limit < nestingIn terms)
    exact ⟨term, member, .inl deep⟩
  · obtain ⟨term, member, here⟩ := marked.term below inner
    exact ⟨term, member, .inr here⟩

theorem Illegible.inner {inner : LockExpr} (illegible : (LockExpr.not inner).Illegible (limit + 1)) :
    inner.Illegible limit :=
  illegible.imp (fun deep => Nat.lt_of_succ_lt_succ (by simpa [nesting] using deep)) Marked.inner

theorem Illegible.leaf {leaf : LockExpr} (illegible : leaf.Illegible limit)
    (alone : leaf.nodes = [leaf]) (flat : leaf.nesting = 0) :
    ∃ name pattern, leaf = .attrTest name pattern ∧ name.begins isLeftMark = true := by
  rcases illegible with deep | marked
  · rw [flat] at deep
    exact absurd deep (Nat.not_lt_zero _)
  · exact marked.leaf alone

theorem misread_group
    (opened : ∀ rest, tree.render ++ rest = '(' :: (ahead ++ ')' :: rest))
    (departs : ∀ rest, Departs tree.leaves
      (readAlternatives true (readAtom limit true) (ahead ++ ')' :: rest)).1.leaves) :
    Misread (readAtom (limit + 1) inGroup) tree := by
  intro rest
  rw [opened rest, readAtom_group rfl]
  exact departs rest

theorem Regular.leaves_ne_nil {bound : Nat} (regular : Regular bound tree) : tree.leaves ≠ [] := by
  have ofTerms {terms : List LockExpr} (two : 2 ≤ terms.length)
      (ih : ∀ term ∈ terms, term.leaves ≠ []) : leavesIn terms ≠ [] := by
    obtain ⟨first, later, rfl⟩ := List.exists_cons_of_length_pos (Nat.lt_of_succ_lt two)
    simp [leavesIn_cons, ih first List.mem_cons_self]
  induction tree generalizing bound with
  | or terms ih =>
      obtain ⟨fewer, rfl⟩ := regular.exists_limit (by simp [nesting])
      rw [leaves_or]
      exact ofTerms (regular.tidy _ (mem_nodes_self _)) fun term member =>
        ih term member (regular.part (.or_term member))
  | and terms ih =>
      obtain ⟨fewer, rfl⟩ := regular.exists_limit (by simp [nesting])
      rw [leaves_and]
      exact ofTerms (regular.tidy _ (mem_nodes_self _)) fun term member =>
        ih term member (regular.part (.and_term member))
  | not inner ih =>
      obtain ⟨fewer, rfl⟩ := regular.exists_limit (by simp [nesting])
      rw [leaves_not]
      exact ih (regular.part (.not_inner inner))
  | number _ | attrTest _ _ | ref _ _ | indirect _ | indirectLock _ | indirectAttr _ _ | tooDeep =>
      simp [leaves, nodes, descendants, isLeaf]

/-- A tree that is given up is misread. -/
theorem misread_exhausted {bound : Nat} (regular : Regular bound tree)
    (nests : ∀ rest, ∃ inside, tree.render ++ rest = '(' :: inside ∨
      tree.render ++ rest = '!' :: inside) : Misread (readAtom 0 inGroup) tree := by
  intro rest later starts
  obtain ⟨inside, nests⟩ := nests rest
  have solid : skipBlanks (tree.render ++ rest) = tree.render ++ rest := by
    rcases nests with nests | nests <;> rw [nests] <;> rfl
  rw [readAtom_exhausted (solid.symm ▸ nests)] at starts
  obtain ⟨leaf, others, leaves⟩ := List.exists_cons_of_ne_nil regular.leaves_ne_nil
  rw [leaves] at starts
  have given : leaf = .tooDeep := (List.cons_prefix_cons.mp starts).1
  have member : leaf ∈ tree.leaves := leaves ▸ List.mem_cons_self
  exact regular.complete (given ▸ List.mem_of_mem_filter member)

/-- The text of a tree that is nested too deeply or has a marked test is misread. -/
theorem readAtom_misreads {bound : Nat} (regular : Regular bound tree)
    (illegible : tree.Illegible limit) : Misread (readAtom limit inGroup) tree := by
  induction tree generalizing limit bound inGroup with
  | or terms ih =>
      obtain ⟨fewer, rfl⟩ := regular.exists_limit (by simp [nesting])
      have below {term : LockExpr} (member : term ∈ terms) : Regular fewer term :=
        regular.part (.or_term member)
      have written (rest : Text) : (LockExpr.or terms).render ++ rest =
          '(' :: (renderTerms '|' terms ++ ')' :: rest) := by simp [render]
      cases limit with
      | zero => exact misread_exhausted regular fun rest => ⟨_, .inl (written rest)⟩
      | succ limit =>
          obtain ⟨term, member, here⟩ :=
            illegible.term (by rw [nesting]) (by rw [descendants]) (by simp)
          have misread : Misread (readAtom limit true) term := ih term member (below member) here
          have each (term : LockExpr) (member : term ∈ terms) :
              ReadOrMisread (LockExpr.readChain '&' .and true (readAtom limit true)) '|' term :=
            (readOrMisread_of_regular (below member) (ih term member (below member))
              (by decide)).readChain leaves_and (by decide) (by decide)
          refine misread_group written fun rest => ?_
          rw [leaves_or]
          exact readChain_departs leaves_or each
            ⟨term, member, misread.readChain leaves_and '&' true⟩ rest
  | and terms ih =>
      obtain ⟨fewer, rfl⟩ := regular.exists_limit (by simp [nesting])
      have below {term : LockExpr} (member : term ∈ terms) : Regular fewer term :=
        regular.part (.and_term member)
      have written (rest : Text) : (LockExpr.and terms).render ++ rest =
          '(' :: (renderTerms '&' terms ++ ')' :: rest) := by simp [render]
      cases limit with
      | zero => exact misread_exhausted regular fun rest => ⟨_, .inl (written rest)⟩
      | succ limit =>
          obtain ⟨term, member, here⟩ :=
            illegible.term (by rw [nesting]) (by rw [descendants]) (by simp)
          have misread : Misread (readAtom limit true) term := ih term member (below member) here
          have each (term : LockExpr) (member : term ∈ terms) :
              ReadOrMisread (readAtom limit true) '&' term :=
            readOrMisread_of_regular (below member) (ih term member (below member)) (by decide)
          refine misread_group written fun rest => ?_
          rw [leaves_and]
          exact (readChain_departs leaves_and each ⟨term, member, misread⟩ rest).extend
            (leaves_readChain leaves_or '|' true _ _)
  | not inner ih =>
      obtain ⟨fewer, rfl⟩ := regular.exists_limit (by simp [nesting])
      have written (rest : Text) : (LockExpr.not inner).render ++ rest =
          '!' :: (inner.render ++ rest) := by simp [render]
      cases limit with
      | zero => exact misread_exhausted regular fun rest => ⟨_, .inr (written rest)⟩
      | succ limit =>
          have misread : Misread (readAtom limit inGroup) inner :=
            ih (regular.part (.not_inner inner)) illegible.inner
          intro rest
          rw [written, readAtom_not rfl, leaves_not, leaves_not]
          exact misread rest
  | attrTest name pattern =>
      obtain ⟨named, -, -⟩ := regular.tidy _ (mem_nodes_self _)
      obtain ⟨_, _, same, begins⟩ := illegible.leaf rfl rfl
      obtain ⟨rfl, rfl⟩ := LockExpr.attrTest.inj same
      exact readAtom_misreads_test named begins pattern limit inGroup
  | number _ | ref _ _ | indirect _ | indirectLock _ | indirectAttr _ _ | tooDeep =>
      obtain ⟨_, _, same, -⟩ := illegible.leaf rfl rfl
      cases same

/-! ## Canonical texts -/

/-- A tree that reads back from its canonical text is well formed. -/
theorem wellFormed_of_parse_render (again : parse tree.render = tree)
    (complete : .tooDeep ∉ tree.nodes) : tree.WellFormed := by
  have regular : Regular tree.nesting tree := ⟨again ▸ parse_tidy _, complete, Nat.le_refl _⟩
  refine (regular.legible_or_illegible maxNesting).resolve_right fun illegible => ?_
  have misread : Misread (readAtom maxNesting false) tree := readAtom_misreads regular illegible
  have departs := (misread []).extend
    (leaves_readAlternatives false (readAtom maxNesting false) (tree.render ++ []))
  rw [List.append_nil] at departs
  exact departs.ne (congrArg leaves again)

/-- A tree that is read from a text, without having been given up, is read again from its canonical
text exactly if no test in it has a name that starts like an operator. -/
theorem parse_render_parse_iff (text : Text) (complete : .tooDeep ∉ (parse text).nodes)
    (shallow : (parse text).nesting ≤ maxNesting) :
    parse (parse text).render = parse text ↔ (parse text).Unmarked := by
  have regular : Regular maxNesting (parse text) := ⟨parse_tidy text, complete, shallow⟩
  exact ⟨fun again => (wellFormed_of_parse_render again complete).unmarked,
    fun unmarked => parse_render ⟨regular, unmarked⟩⟩

/-- The test in `=(a:b` has a name that starts with a parenthesis, so its canonical text `(a:b` is
read as a group. -/
theorem parse_render_parse_mark :
    parse ['=', '(', 'a', ':', 'b'] = .attrTest ['(', 'a'] ['b'] ∧
      parse (parse ['=', '(', 'a', ':', 'b']).render ≠ parse ['=', '(', 'a', ':', 'b'] := by
  have read : parse ['=', '(', 'a', ':', 'b'] = .attrTest ['(', 'a'] ['b'] := by cbv
  have complete : LockExpr.tooDeep ∉ (parse ['=', '(', 'a', ':', 'b']).nodes := by
    simp [read, nodes, descendants]
  have shallow : (parse ['=', '(', 'a', ':', 'b']).nesting ≤ maxNesting := by
    simp [read, nesting]
  refine ⟨read, fun again => ?_⟩
  have unmarked := (parse_render_parse_iff _ complete shallow).mp again
  rw [read] at unmarked
  exact absurd (unmarked _ _ (mem_nodes_self _)) (by decide)

end LockExpr
end WorldLocks
