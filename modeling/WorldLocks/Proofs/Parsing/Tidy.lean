import WorldLocks.Proofs.Parsing.Readers
import WorldLocks.Proofs.Parsing.Trees

/-! What trees a lock can be read as.  Whatever the text is, every node that is read is tidy: its
names and patterns hold only what their readers take, and they are trimmed. -/

set_option autoImplicit false

namespace WorldLocks

open Cursor

namespace LockExpr

variable {text ahead behind name pattern : Text} {terms : List LockExpr} {reader : Reader}

/-! ## Texts behind blanks -/

theorem trimStart_of_prefix_skipBlanks (starts : text <+: skipBlanks ahead) :
    Text.trimStart text = text := by
  obtain ⟨rest, split⟩ := starts
  cases text with
  | nil => rfl
  | cons c later =>
      have head : c ∈ (Text.trimStart ahead).head? := by
        rw [show Text.trimStart ahead = c :: later ++ rest from split.symm]
        rfl
      exact Text.trimStart_of_head (by simpa using Text.head?_trimStart_not_blank head)

/-- What is read right behind the blanks starts with what is ahead there, also when it is trimmed. -/
theorem head?_trim_of_prefix_skipBlanks (starts : text <+: skipBlanks ahead) {c : Char}
    (head : c ∈ (Text.trim text).head?) : c ∈ (skipBlanks ahead).head? := by
  rw [← Text.head?_trimStart, trimStart_of_prefix_skipBlanks starts] at head
  obtain ⟨rest, split⟩ := starts
  cases text with
  | nil => cases head
  | cons first later => simpa [← split] using head

theorem begins_trim_of_prefix_skipBlanks {kind : Char → Bool} (starts : text <+: skipBlanks ahead)
    (not : ∀ c ∈ (skipBlanks ahead).head?, kind c = false) :
    (Text.trim text).begins kind = false := by
  refine Text.begins_eq_false_iff.mpr fun c head => ?_
  exact not c (head?_trim_of_prefix_skipBlanks starts head)

/-! ## Names and numbers -/

theorem readName_fst (ahead : Text) :
    (readName ahead).1 = Text.trim (reference (skipBlanks ahead)).1 := by
  have stays : Text.trimStart (reference (skipBlanks ahead)).1 = (reference (skipBlanks ahead)).1 :=
    trimStart_of_prefix_skipBlanks (List.takeWhile_prefix _)
  unfold Text.trim
  rw [stays]
  rfl

theorem isName_readName (ahead : Text) : IsName (readName ahead).1 := by
  rw [readName_fst]
  refine ⟨Text.trimmed_trim _, fun c member => ?_⟩
  have taken := (run_spec _ (skipBlanks ahead)).2.1 c (Text.mem_of_mem_trim member)
  simpa using taken

theorem begins_readName {kind : Char → Bool}
    (not : ∀ c ∈ (skipBlanks ahead).head?, kind c = false) :
    (readName ahead).1.begins kind = false := by
  rw [readName_fst]
  exact begins_trim_of_prefix_skipBlanks (List.takeWhile_prefix _) not

/-- The name and the pattern of a test that is read, once they are trimmed. -/
theorem tidy_of_attrTest? (reads : attrTest? ahead = some ((name, pattern), behind)) :
    IsAttrName (Text.trim name) ∧ IsPattern (Text.trim pattern) ∧ name <+: ahead := by
  obtain ⟨split, unended, -⟩ := attrTest?_eq_some reads
  have taken : ahead.takeWhile (fun c => c == '.' || !isRightMark c) = name := by
    unfold attrTest? run at reads
    dsimp only at reads
    split at reads
    · cases reads
    · exact (Prod.mk.inj (Prod.mk.inj (Option.some.inj reads)).1).1
  refine ⟨⟨Text.trimmed_trim _, fun c member => ?_⟩, ⟨Text.trimmed_trim _, fun c member => ?_⟩,
    ⟨_, split.symm⟩⟩
  · have inside : c ∈ ahead.takeWhile fun c => c == '.' || !isRightMark c :=
      taken.symm ▸ Text.mem_of_mem_trim member
    exact (run_spec _ ahead).2.1 c inside
  · exact unended c (Text.mem_of_mem_trim member)

theorem leadingInt_bounds {digits : Text} (all : ∀ c ∈ digits, Text.isDigit c = true) :
    0 ≤ Text.leadingInt digits ∧ Text.leadingInt digits ≤ Text.maxWord64 := by
  have stays : Text.trimStart digits = digits :=
    Text.trimStart_of_no_blanks fun c member => Text.isBlank_of_isDigit (all c member)
  have first : ∀ c ∈ (Text.trimStart digits).head?, Text.isDigit c = true :=
    stays.symm ▸ fun c head => all c (List.mem_of_mem_head? head)
  rw [Text.leadingInt_of_digits first]
  exact ⟨Int.natCast_nonneg _, Int.ofNat_le.mpr (Text.leadingNat_le _)⟩

/-! ## Leaves -/

/-- Every node of a tree is tidy. -/
def AllTidy (tree : LockExpr) : Prop := ∀ node ∈ tree.nodes, node.Tidy

theorem allTidy_of_leaf {leaf : LockExpr} (alone : leaf.nodes = [leaf]) (tidy : leaf.Tidy) :
    AllTidy leaf := by
  intro node member
  rw [alone, List.mem_singleton] at member
  exact member ▸ tidy

theorem readSubject_tidy (kind : RefKind)
    (bare : kind = .any → ∀ c ∈ (skipBlanks ahead).head?, isLeftMark c = false) :
    AllTidy (readSubject kind ahead).1 := by
  unfold readSubject
  dsimp only
  split
  · exact allTidy_of_leaf rfl (leadingInt_bounds (run_spec _ _).2.1)
  · next undigited =>
    have digitless : ∀ c ∈ (skipBlanks ahead).head?, Text.isDigit c = false :=
      Text.begins_eq_false_iff.mp (Bool.eq_false_iff.mpr undigited)
    split
    · next reads =>
      obtain ⟨named, matched, starts⟩ := tidy_of_attrTest? reads
      exact allTidy_of_leaf rfl ⟨named, begins_trim_of_prefix_skipBlanks starts digitless, matched⟩
    · have again := skipBlanks_skipBlanks ahead
      exact allTidy_of_leaf rfl ⟨isName_readName _, begins_readName (again.symm ▸ digitless),
        fun any => begins_readName (again.symm ▸ bare any)⟩

theorem readIndirect_tidy (ahead : Text) : AllTidy (readIndirect ahead).1 := by
  unfold readIndirect
  dsimp only
  split
  · next unopened =>
    refine allTidy_of_leaf rfl ⟨isName_readName _, fun opens => ?_⟩
    rw [readName_fst] at opens
    have head := head?_trim_of_prefix_skipBlanks (List.takeWhile_prefix _) opens
    rw [skipBlanks_skipBlanks] at head
    cases left : skipBlanks ahead with
    | nil => simp [left] at head
    | cons c rest =>
        obtain rfl : c = '(' := by simpa [left] using head
        simp [left, eat?] at unopened
  · split
    · exact allTidy_of_leaf rfl (isName_readName _)
    · split
      · next reads =>
        obtain ⟨named, matched, -⟩ := tidy_of_attrTest? reads
        exact allTidy_of_leaf rfl ⟨isName_readName _, named, matched⟩
      · exact allTidy_of_leaf rfl (isName_readName _)

/-! ## Chains -/

/-- What a reader reads is tidy. -/
def ReadsTidy (reader : Reader) : Prop := ∀ ahead, AllTidy (reader ahead).1

theorem readTerms_ne_nil (operator : Char) (inGroup : Bool) (reader : Reader) (bound : Nat)
    (ahead : Text) : (readTerms operator inGroup reader bound ahead).1 ≠ [] := by
  unfold readTerms
  dsimp only
  split <;> exact List.cons_ne_nil _ _

/-- What holds of everything that a reader reads holds of the terms that it reads. -/
theorem forall_mem_readTerms (holds : LockExpr → Prop) (reads : ∀ ahead, holds (reader ahead).1)
    (operator : Char) (inGroup : Bool) (bound : Nat) (ahead : Text) :
    ∀ term ∈ (readTerms operator inGroup reader bound ahead).1, holds term := by
  induction bound generalizing ahead with
  | zero => simpa [readTerms] using reads ahead
  | succ bound ih =>
      unfold readTerms
      dsimp only
      cases eat? operator (beforeOperator inGroup (reader ahead).2) with
      | none => simpa using reads ahead
      | some next => simpa using ⟨reads ahead, ih next⟩

theorem chain_tidy {combine : List LockExpr → LockExpr}
    (combines : ∀ terms, (combine terms).nodes = combine terms :: nodesIn terms ∧
      (2 ≤ terms.length → (combine terms).Tidy))
    (present : terms ≠ []) (tidy : ∀ term ∈ terms, AllTidy term) :
    AllTidy (chain combine terms) := by
  match terms, present with
  | [term], _ => exact tidy term List.mem_cons_self
  | first :: second :: later, _ =>
      intro node member
      change node ∈ (combine _).nodes at member
      rw [(combines _).1] at member
      rcases List.mem_cons.mp member with rfl | below
      · exact (combines _).2 (by simp)
      · obtain ⟨term, inside, here⟩ := mem_nodesIn.mp below
        exact tidy term inside node here

theorem readAlternatives_tidy (reads : ReadsTidy reader) (inGroup : Bool) :
    ReadsTidy (readAlternatives inGroup reader) := by
  have conditions : ReadsTidy (readChain '&' .and inGroup reader) := fun ahead =>
    chain_tidy (fun terms => ⟨by rw [nodes, descendants], id⟩)
      (readTerms_ne_nil '&' inGroup reader ahead.length ahead)
      (forall_mem_readTerms AllTidy reads '&' inGroup ahead.length ahead)
  exact fun ahead =>
    chain_tidy (fun terms => ⟨by rw [nodes, descendants], id⟩)
      (readTerms_ne_nil '|' inGroup _ ahead.length ahead)
      (forall_mem_readTerms AllTidy conditions '|' inGroup ahead.length ahead)

/-! ## Trees -/

theorem readAtom_tidy (limit : Nat) (inGroup : Bool) : ReadsTidy (readAtom limit inGroup) := by
  induction limit using Nat.strongRecOn generalizing inGroup with
  | ind limit ih =>
      intro ahead
      have exhausted : AllTidy .tooDeep := allTidy_of_leaf rfl trivial
      rcases head_cases ahead with ⟨c, inside, starts, marked⟩ | bare
      case inr =>
        rw [readAtom_bare limit inGroup bare]
        exact readSubject_tidy .any fun _ => bare
      rcases eq_of_isLeftMark marked with rfl | rfl | rfl | rfl | rfl
      · cases limit with
        | zero => rw [readAtom_exhausted (.inr starts)]; exact exhausted
        | succ fewer =>
            rw [readAtom_not starts]
            have inner := ih fewer (Nat.lt_succ_self fewer) inGroup inside
            intro node member
            rw [nodes, descendants] at member
            rcases List.mem_cons.mp member with rfl | below
            · trivial
            · exact inner node below
      · cases limit with
        | zero => rw [readAtom_exhausted (.inl starts)]; exact exhausted
        | succ fewer =>
            rw [readAtom_group starts]
            exact readAlternatives_tidy (ih fewer (Nat.lt_succ_self fewer) true) true inside
      · rw [readAtom_indirect starts]
        exact readIndirect_tidy inside
      · rw [readAtom_is starts]
        exact readSubject_tidy .is (by simp)
      · rw [readAtom_carries starts]
        exact readSubject_tidy .carries (by simp)

theorem parse_tidy (text : Text) : AllTidy (parse text) :=
  readAlternatives_tidy (readAtom_tidy maxNesting false) false text

end LockExpr
end WorldLocks
