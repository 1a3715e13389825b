import WorldLocks.Proofs.Parts.Blanks

/-! Locks that differ by blanks next to their words are compiled to texts that are read alike.  The
induction is on the tree: whatever phase the compiler is in, it compiles the tokens of a node to
tokens that are read as one node, the same for all blanks.  Where the compiler names an object
although the reader wants no name, the reader gets stuck, at the same place for all blanks.  Blanks
before a mark are another matter: for the compiler they begin a word that goes on with the mark. -/

set_option autoImplicit false

namespace WorldLocks

open Cursor LockPart

namespace LockExpr

/-! ## Readings that may get stuck -/

section Readings

variable {stuck inGroup : Bool} {tree : LockExpr} {founds : List LockExpr} {reader : Reader}
  {operator : Char} {limit : Nat} {ahead inside rest later : Text}

/-- Where a reading ends: before the rest, or stuck at the number of an object. -/
def Leaves : (stuck : Bool) → (rest left : Text) → Prop
  | false, rest, left => skipBlanks left = rest
  | true, _, left => ∃ later, left = '#' :: later

/-- What a reading makes of a text, and whether it gets stuck before the rest. -/
def Yields {α : Type} (stuck : Bool) (read : α × Text) (found : α) (rest : Text) : Prop :=
  ∃ left, read = (found, left) ∧ Leaves stuck rest left

theorem readTerms_stuck (notNumber : operator ≠ '#') (reads : reader ahead = (tree, '#' :: later))
    (inGroup : Bool) (bound : Nat) :
    readTerms operator inGroup reader bound ahead = ([tree], '#' :: later) := by
  have stays : beforeOperator inGroup ('#' :: later) = '#' :: later := by
    simp [beforeOperator, show Text.isBlank '#' = false from by decide]
  have ends : eat? operator ('#' :: later) = none := if_neg notNumber.symm
  unfold readTerms
  rw [reads]
  dsimp only
  rw [stays, ends]
  cases bound <;> rfl

namespace Yields

theorem readTerms_last (yields : Yields stuck (reader ahead) tree rest)
    (last : inGroup = false → rest = []) (alone : rest.head? ≠ some operator)
    (notNumber : operator ≠ '#') (bound : Nat) :
    Yields stuck (readTerms operator inGroup reader bound ahead) [tree] rest := by
  obtain ⟨left, reads, leaves⟩ := yields
  cases stuck with
  | false =>
      have leaves : skipBlanks left = rest := leaves
      refine ⟨rest, LockExpr.readTerms_last ⟨left, reads, leaves⟩ last alone bound, ?_⟩
      change skipBlanks rest = rest
      rw [← leaves, skipBlanks_skipBlanks]
  | true =>
      obtain ⟨later, rfl⟩ := leaves
      exact ⟨_, readTerms_stuck notNumber reads inGroup bound, later, rfl⟩

theorem readChain (yields : Yields stuck
      (readTerms operator inGroup reader ahead.length ahead) founds rest)
    (combine : List LockExpr → LockExpr) :
    Yields stuck (readChain operator combine inGroup reader ahead) (chain combine founds) rest := by
  obtain ⟨left, reads, leaves⟩ := yields
  refine ⟨left, ?_, leaves⟩
  unfold LockExpr.readChain
  rw [reads]

/-- One term alone passes through a chain unchanged. -/
theorem readChain_single (yields : Yields stuck (reader ahead) tree rest)
    (last : inGroup = false → rest = []) (alone : rest.head? ≠ some operator)
    (notNumber : operator ≠ '#') (combine : List LockExpr → LockExpr) :
    Yields stuck (LockExpr.readChain operator combine inGroup reader ahead) tree rest :=
  (yields.readTerms_last last alone notNumber ahead.length).readChain combine

theorem readAtom_group (opens : skipBlanks ahead = '(' :: inside)
    (yields : Yields stuck (readAlternatives true (readAtom limit true) inside) tree (')' :: rest))
    (ended : Ended rest) : Yields stuck (readAtom (limit + 1) inGroup ahead) tree rest := by
  obtain ⟨left, reads, leaves⟩ := yields
  rw [LockExpr.readAtom_group opens, reads]
  dsimp only
  cases stuck with
  | false =>
      have leaves : skipBlanks left = ')' :: rest := leaves
      exact ⟨rest, by rw [leaves]; rfl, skipBlanks_of_ended ended⟩
  | true =>
      obtain ⟨later, rfl⟩ := leaves
      exact ⟨'#' :: later, rfl, later, rfl⟩

end Yields

theorem parse_of_yields {text : Text}
    (yields : Yields stuck (readAtom maxNesting false text) tree []) : parse text = tree := by
  have conditions :
      Yields stuck (readChain '&' .and false (readAtom maxNesting false) text) tree [] :=
    yields.readChain_single (fun _ => rfl) (by simp) (by decide) .and
  obtain ⟨left, reads, -⟩ :
      Yields stuck (readAlternatives false (readAtom maxNesting false) text) tree [] :=
    conditions.readChain_single (fun _ => rfl) (by simp) (by decide) .or
  exact congrArg Prod.fst reads

end Readings

/-! ## Compiled names and patterns -/

section Tokens

open Compiler

variable {compiler : Compiler} {parts : List LockPart} {out : Text}

theorem isName_of_write (writes : compiler.write parts = .ok out) (named : IsName (textOf parts)) :
    IsName out :=
  ⟨trimmed_of_write writes named.trimmed, forall_mem_of_write writes
    (fun ref c member => (isName_literal ref).unmarked c member) named.unmarked⟩

theorem isAttrName_of_write (writes : compiler.write parts = .ok out)
    (named : IsAttrName (textOf parts)) : IsAttrName out := by
  refine ⟨trimmed_of_write writes named.trimmed,
    forall_mem_of_write writes (fun ref c member => ?_) named.unmarked⟩
  simp [(isName_literal ref).unmarked c member]

theorem isPattern_of_write (writes : compiler.write parts = .ok out)
    (matched : IsPattern (textOf parts)) : IsPattern out := by
  refine ⟨trimmed_of_write writes matched.trimmed,
    forall_mem_of_write writes (fun ref c member => ?_) matched.unended⟩
  refine Bool.eq_false_iff.mpr fun ends => ?_
  have marked := isRightMark_of_endsPattern ends
  rw [(isName_literal ref).unmarked c member] at marked
  cases marked

end Tokens

/-! ## Leaves -/

section Trees

open Compiler Phase

variable {compiler : Compiler} {limit : Nat} {phase : Phase} {tree image : LockExpr}
  {terms : List LockExpr} {name pattern target out : Text}

/-- However blanks stand next to its words, a tree is compiled to a text that is read alike. -/
def YieldsAlike (compiler : Compiler) (limit : Nat) (phase : Phase) (tree : LockExpr) : Prop :=
  ∃ stuck found, compiler.CompilesTo phase tree.tokens fun out =>
    ∀ inGroup rest, Ended rest → Yields stuck (readAtom limit inGroup (out ++ rest)) found rest

theorem YieldsAlike.of_image (legible : Legible limit image)
    (compiles : compiler.CompilesTo phase tree.tokens (Spaced image.tokens)) :
    YieldsAlike compiler limit phase tree :=
  ⟨false, image, compiles.imp fun _ spaced _ _ ended => readAtom_spaced legible spaced ended⟩

theorem legible_leaf {leaf : LockExpr} (alone : leaf.nodes = [leaf]) (flat : leaf.nesting = 0)
    (tidy : leaf.Tidy) (given : leaf ≠ .tooDeep)
    (unmarked : ∀ name pattern, leaf = .attrTest name pattern → name.begins isLeftMark = false) :
    Legible limit leaf where
  tidy := allTidy_of_leaf alone tidy
  complete := by
    rw [alone, List.mem_singleton]
    exact given.symm
  shallow := flat ▸ Nat.zero_le limit
  unmarked := by
    intro name pattern member
    rw [alone, List.mem_singleton] at member
    exact unmarked name pattern member.symm

theorem isObjectWord_ofInt {value : Int} (notNegative : 0 ≤ value) :
    IsObjectWord (Text.ofInt value) := by
  obtain ⟨n, rfl⟩ := Int.eq_ofNat_of_zero_le notNegative
  refine ⟨Text.ofNat_ne_nil n, fun c member => ?_⟩
  have digit := Text.isDigit_of_mem_ofNat member
  refine ⟨isLeftMark_of_isDigit digit, isRightMark_of_isDigit digit, ?_⟩
  rintro rfl
  exact absurd digit (by decide)

/-- A number is looked up as the name of an object. -/
theorem yieldsAlike_number {value : Int} (notNegative : 0 ≤ value) (opens : phase.Opens)
    (accepts : compiler.Accepts phase (Text.ofInt value)) :
    YieldsAlike compiler limit phase (.number value) := by
  have plain := isObjectWord_ofInt notNegative
  obtain ⟨out, writes⟩ := accepts
  have parts : cut phase (Text.ofInt value) = [object (Text.ofInt value)] := by
    simpa [finish] using @cut_object phase (Text.ofInt value) [] opens plain (by simp)
  have numbered := writes
  rw [parts] at numbered
  obtain ⟨first, rest, found, nothing, rfl⟩ := write_cons_eq_ok.mp numbered
  obtain rfl := Except.ok.inj nothing
  obtain ⟨ref, -, rfl⟩ := map_eq_ok.mp found
  rw [List.append_nil] at writes
  have legible : Legible limit (.ref .any ref.literal) :=
    legible_leaf rfl rfl ⟨isName_literal ref, rfl, fun _ => rfl⟩ (by simp) (by simp)
  refine .of_image legible ?_
  have noCall : '[' ∉ Text.ofInt value := fun member => (plain.unmarked _ member).2.2 rfl
  exact (compilesTo_token opens.ready noCall writes).imp fun _ spaced => spaced.empty_cons

theorem yieldsAlike_ref {kind : RefKind} (tidy : (LockExpr.ref kind name).Tidy)
    (noCall : '[' ∉ name) (opens : phase.Opens)
    (accepts : compiler.Accepts phase (LockExpr.ref kind name).render) :
    YieldsAlike compiler limit phase (.ref kind name) := by
  obtain ⟨named, undigited, bare⟩ := tidy
  -- Whatever the mark was, the name behind it is compiled alike.
  have image {phase : Phase} (opens : phase.Opens) (accepts : compiler.Accepts phase name) :
      ∃ out, Legible limit (.ref kind out) ∧ compiler.CompilesTo phase [name] (Spaced [out]) := by
    obtain ⟨out, writes⟩ := accepts
    have written := opens.ready.textOf_cut name
    have tidy : (LockExpr.ref kind out).Tidy :=
      ⟨isName_of_write writes (by rwa [written]),
        begins_of_write writes (by decide) (by rwa [written]),
        fun any => begins_of_write writes (by decide) (by rw [written]; exact bare any)⟩
    exact ⟨out, legible_leaf rfl rfl tidy (by simp) (by simp),
      compilesTo_token opens.ready noCall writes⟩
  cases kind with
  | is =>
      obtain ⟨out, legible, compiles⟩ := image opens (accepts.equals opens)
      exact .of_image legible ((compiles.equals opens).imp fun _ ⟨_, same, spaced⟩ =>
        same ▸ spaced.mark_cons)
  | carries =>
      obtain ⟨out, legible, compiles⟩ :=
        image (.inl rfl) (accepts.left opens (by decide) (by decide))
      exact .of_image legible ((compiles.left opens (by decide) (by decide)).imp
        fun _ ⟨_, same, spaced⟩ => same ▸ spaced.mark_cons)
  | any =>
      obtain ⟨out, legible, compiles⟩ := image opens accepts
      exact .of_image legible fun text words =>
        (compiles.imp fun _ spaced => spaced.empty_cons) text words.of_empty

/-- A test is compiled to a test, with a name and a pattern of the same kinds. -/
theorem compilesTo_test (ready : phase.Ready) (noCall : '[' ∉ name ∧ '[' ∉ pattern)
    (named : IsAttrName name) (matched : IsPattern pattern)
    (accepts : compiler.Accepts phase (testText name pattern)) :
    ∃ outName outPattern, IsAttrName outName ∧ IsPattern outPattern ∧
      (∀ kind : Char → Bool, kind '#' = false → name.begins kind = false →
        outName.begins kind = false) ∧
      compiler.CompilesTo phase [name, [':'], pattern] (Spaced [outName, [':'], outPattern]) := by
  obtain ⟨⟨outName, nameWrites⟩, outPattern, patternWrites⟩ :=
    accepts.append_mark ready.outside noCall.1 (by decide) (by decide)
  have readyBehind := ready_past_colon phase name
  have nameText := ready.textOf_piece name ':'
  have compiles := (compilesTo_token readyBehind noCall.2 patternWrites).token_mark ready noCall.1
    (by decide) (by decide) nameWrites
  exact ⟨outName, outPattern, isAttrName_of_write nameWrites (by rwa [nameText]),
    isPattern_of_write patternWrites (by rwa [readyBehind.textOf_cut]),
    fun kind hash not => begins_of_write nameWrites hash (by rwa [nameText]),
    compiles.imp fun _ ⟨_, _, same, first, second⟩ => same ▸ first.append_mark second⟩

theorem yieldsAlike_attrTest (tidy : (LockExpr.attrTest name pattern).Tidy)
    (unmarked : name.begins isLeftMark = false) (noCall : '[' ∉ name ∧ '[' ∉ pattern)
    (opens : phase.Opens)
    (accepts : compiler.Accepts phase (LockExpr.attrTest name pattern).render) :
    YieldsAlike compiler limit phase (.attrTest name pattern) := by
  obtain ⟨named, undigited, matched⟩ := tidy
  obtain ⟨outName, outPattern, isName, isPattern, begins, compiles⟩ :=
    compilesTo_test opens.ready noCall named matched accepts
  have tidy : (LockExpr.attrTest outName outPattern).Tidy :=
    ⟨isName, begins _ (by decide) undigited, isPattern⟩
  refine .of_image (legible_leaf rfl rfl tidy (by simp) fun _ _ same => ?_) compiles
  obtain ⟨rfl, rfl⟩ := LockExpr.attrTest.inj same
  exact begins _ (by decide) unmarked

/-! ### Indirections -/

theorem yieldsAlike_indirect (tidy : (LockExpr.indirect name).Tidy) (noCall : '[' ∉ name)
    (opens : phase.Opens) (accepts : compiler.Accepts phase (LockExpr.indirect name).render) :
    YieldsAlike compiler limit phase (.indirect name) := by
  obtain ⟨named, bare⟩ := tidy
  obtain ⟨out, writes⟩ := accepts.left opens (by decide) (by decide)
  have written := ready_start.textOf_cut name
  have unopened : out.head? ≠ some '(' := by
    intro head
    rcases head?_of_write writes '(' head with same | hash
    · exact bare (written ▸ same)
    · exact absurd hash (by decide)
  have tidy : (LockExpr.indirect out).Tidy := ⟨isName_of_write writes (by rwa [written]), unopened⟩
  have legible : Legible limit (.indirect out) := legible_leaf rfl rfl tidy (by simp) (by simp)
  have compiles := (compilesTo_token ready_start noCall writes).left opens
    (show isLeftMark '@' = true by decide) (by decide)
  exact .of_image legible (compiles.imp fun _ ⟨_, same, spaced⟩ => same ▸ spaced.mark_cons)

theorem yieldsAlike_indirectLock (tidy : (LockExpr.indirectLock name).Tidy) (noCall : '[' ∉ name)
    (opens : phase.Opens) (accepts : compiler.Accepts phase (LockExpr.indirectLock name).render) :
    YieldsAlike compiler limit phase (.indirectLock name) := by
  have accepts : compiler.Accepts phase ('@' :: '(' :: (name ++ [')'])) := by
    simpa [render] using accepts
  obtain ⟨out, writes⟩ := accepts.indirect opens noCall
  have isName : IsName out := isName_of_write writes (by rwa [ready_start.textOf_cut])
  have legible : Legible limit (.indirectLock out) :=
    legible_leaf rfl rfl isName (by simp) (by simp)
  have compiles := (compilesTo_token ready_start noCall writes).indirect opens
    (by simpa using noCall)
  exact .of_image legible (compiles.imp fun _ ⟨_, same, spaced⟩ =>
    same ▸ (spaced.append_mark (.ends Text.blank_nil)).mark_cons.mark_cons)

theorem yieldsAlike_indirectAttr_some
    (tidy : (LockExpr.indirectAttr target (some (name, pattern))).Tidy)
    (noCall : '[' ∉ target ∧ '[' ∉ name ∧ '[' ∉ pattern) (opens : phase.Opens)
    (accepts : compiler.Accepts phase
      (LockExpr.indirectAttr target (some (name, pattern))).render) :
    YieldsAlike compiler limit phase (.indirectAttr target (some (name, pattern))) := by
  obtain ⟨targeted, named, matched⟩ := tidy
  obtain ⟨noTarget, noTest⟩ := noCall
  have accepts : compiler.Accepts phase
      ('@' :: '(' :: (target ++ '=' :: testText name pattern ++ [')'])) := by
    simpa [render] using accepts
  obtain ⟨⟨outTarget, writes⟩, tests⟩ :=
    (accepts.indirect opens (by simp [testText, noTarget, noTest])).append_mark trivial noTarget
      (by decide) (by decide)
  have isTarget : IsName outTarget :=
    isName_of_write writes (by rwa [ready_start.textOf_piece])
  obtain ⟨outName, outPattern, isName, isPattern, -, tested⟩ :=
    compilesTo_test (opens_past_equals start target).ready noTest named matched tests
  have legible : Legible limit (.indirectAttr outTarget (some (outName, outPattern))) :=
    legible_leaf rfl rfl ⟨isTarget, isName, isPattern⟩ (by simp) (by simp)
  have compiles := (tested.token_mark ready_start noTarget (by decide) (by decide)
    writes).indirect opens (by simp [noTarget, noTest])
  refine .of_image legible (compiles.imp ?_)
  rintro _ ⟨_, rfl, _, _, rfl, first, second⟩
  exact ((first.append_mark second).append_mark (.ends Text.blank_nil)).mark_cons.mark_cons

/-- A number where a test is expected is not read. -/
theorem yields_stuck {spacedName : Text} (named : IsName name) (spaced : Spaced [name] spacedName)
    (ref : Dbref) (limit : Nat) (inGroup : Bool) (rest : Text) :
    Yields true
      (readAtom limit inGroup ('@' :: '(' :: (spacedName ++ '=' :: ref.literal ++ [')']) ++ rest))
      (.indirectAttr name none) rest := by
  have written : '@' :: '(' :: (spacedName ++ '=' :: ref.literal ++ [')']) ++ rest =
      '@' :: '(' :: (spacedName ++ '=' :: (ref.literal ++ ')' :: rest)) := by simp
  have stops : ∀ c ∈ ('=' :: (ref.literal ++ ')' :: rest)).head?, isRightMark c = true := by
    simp [isRightMark]
  have names := named.readName spaced stops
  have solid : skipBlanks (ref.literal ++ ')' :: rest) = ref.literal ++ ')' :: rest := rfl
  have testless : attrTest? (ref.literal ++ ')' :: rest) = none :=
    attrTest?_eq_none (fun c member => by simp [(isName_literal ref).unmarked c member])
      (by simp [Ended, endsPattern])
  have opens : skipBlanks ('(' :: (spacedName ++ '=' :: (ref.literal ++ ')' :: rest))) =
      '(' :: (spacedName ++ '=' :: (ref.literal ++ ')' :: rest)) := rfl
  refine ⟨ref.literal ++ ')' :: rest, ?_, _, rfl⟩
  rw [written, readAtom_indirect rfl]
  unfold readIndirect
  simp only [opens, eat?, if_true, names, solid, testless]
  rfl

theorem yieldsAlike_indirectAttr_none (tidy : (LockExpr.indirectAttr target none).Tidy)
    (noCall : '[' ∉ target) (opens : phase.Opens)
    (accepts : compiler.Accepts phase (LockExpr.indirectAttr target none).render) :
    YieldsAlike compiler limit phase (.indirectAttr target none) := by
  have accepts : compiler.Accepts phase ('@' :: '(' :: ((target ++ ['=']) ++ [')'])) := by
    simpa [render] using accepts
  obtain ⟨⟨out, writes⟩, nothing⟩ :=
    (accepts.indirect opens (by simp [noCall])).append_mark trivial noCall (by decide) (by decide)
  have isName : IsName out := isName_of_write writes (by rwa [ready_start.textOf_piece])
  have compiles {good : Text → Prop}
      (ends : compiler.CompilesTo (past start target '=') [] good) :=
    (ends.token_mark ready_start noCall (by decide) (by decide) writes).indirect opens
      (by simpa using noCall)
  rcases opens_past_equals start target with opened | closed
  · -- The compiler still expects a subject, so that it looks up the empty word.
    rw [opened] at nothing
    obtain ⟨number, writes⟩ := nothing
    obtain ⟨first, rest, found, empty, rfl⟩ :=
      write_cons_eq_ok.mp (show compiler.write [object []] = .ok number from writes)
    obtain rfl := Except.ok.inj empty
    obtain ⟨ref, -, rfl⟩ := map_eq_ok.mp found
    have ends : compiler.CompilesTo (past start target '=') [] fun out => out = ref.literal := by
      intro text words
      obtain rfl := words.nil
      exact ⟨_, by rw [opened]; exact writes, List.append_nil _⟩
    refine ⟨true, .indirectAttr out none, (compiles ends).imp ?_⟩
    rintro _ ⟨_, rfl, name, _, rfl, spaced, rfl⟩ inGroup rest -
    exact yields_stuck isName spaced ref limit inGroup rest
  · have ends : compiler.CompilesTo (past start target '=') [] fun out => out = [] :=
      closed ▸ compilesTo_nil
    have legible : Legible limit (.indirectAttr out none) :=
      legible_leaf rfl rfl isName (by simp) (by simp)
    refine .of_image legible ((compiles ends).imp ?_)
    rintro _ ⟨_, rfl, _, _, rfl, spaced, rfl⟩
    exact ((spaced.append_mark (.ends Text.blank_nil)).append_mark
      (.ends Text.blank_nil)).mark_cons.mark_cons

/-! ## Groups and negations -/

variable {operator : Char} {reader : Reader}

theorem mem_renderTerms {term : LockExpr} {c : Char} (member : term ∈ terms)
    (inside : c ∈ term.render) : c ∈ renderTerms operator terms := by
  induction terms with
  | nil => cases member
  | cons first later ih =>
      cases later with
      | nil =>
          obtain rfl := List.mem_singleton.mp member
          exact inside
      | cons next others =>
          rw [renderTerms, List.mem_append, List.mem_cons]
          rcases List.mem_cons.mp member with rfl | behind
          · exact .inl inside
          · exact .inr (.inr (ih behind))

/-- What the terms of a chain are read as, up to the first one at which the reader gets stuck. -/
theorem compilesTo_terms (ends : endsPattern operator = true) (opened : operator ≠ ')')
    (present : terms ≠ []) (noCall : '[' ∉ renderTerms operator terms)
    (each : ∀ term ∈ terms, ∀ phase : Phase, phase.Opens → compiler.Accepts phase term.render →
      ∃ stuck found, compiler.CompilesTo phase term.tokens fun out =>
        ∀ c later, c = operator ∨ c = ')' →
          Yields stuck (reader (out ++ c :: later)) found (c :: later))
    (opens : phase.Opens) (accepts : compiler.Accepts phase (renderTerms operator terms)) :
    ∃ stuck founds, compiler.CompilesTo phase (tokensIn operator terms) fun out =>
      ∀ more bound, (out ++ ')' :: more).length ≤ bound →
        Yields stuck (readTerms operator true reader bound (out ++ ')' :: more)) founds
          (')' :: more) := by
  have notNumber : operator ≠ '#' := by
    rintro rfl
    exact absurd ends (by decide)
  induction terms generalizing phase with
  | nil => exact absurd rfl present
  | cons term later ih =>
      obtain ⟨here, others⟩ := List.forall_mem_cons.mp each
      have noTerm : '[' ∉ term.render := fun inside =>
        noCall (mem_renderTerms List.mem_cons_self inside)
      cases later with
      | nil =>
          obtain ⟨stuck, found, compiles⟩ := here phase opens accepts
          refine ⟨stuck, [found], compiles.imp fun out yields more bound _ => ?_⟩
          exact (yields ')' more (.inr rfl)).readTerms_last (by simp) (by simpa using opened.symm)
            notNumber bound
      | cons next later =>
          obtain ⟨accepts, behindIt⟩ := accepts.append_end opens.outside noTerm ends
          obtain ⟨stuck, found, compiles⟩ := here phase opens accepts
          obtain ⟨laterStuck, founds, laterCompiles⟩ := ih (List.cons_ne_nil _ _)
            (fun inside => noCall (by simp [renderTerms, inside])) others (.inr rfl) behindIt
          have both := compiles.append_end laterCompiles opens.outside
            (by rwa [flatten_tokens]) ends
          cases stuck with
          | true =>
              refine ⟨true, [found], both.imp ?_⟩
              rintro _ ⟨before, rest, rfl, yields, -⟩ more bound -
              obtain ⟨_, reads, behind, rfl⟩ := yields operator (rest ++ ')' :: more) (.inl rfl)
              rw [List.append_assoc]
              exact ⟨_, readTerms_stuck notNumber reads true bound, behind, rfl⟩
          | false =>
              refine ⟨laterStuck, found :: founds, both.imp ?_⟩
              rintro _ ⟨before, rest, rfl, yields, laterYields⟩ more bound enough
              rw [List.append_assoc] at enough ⊢
              rw [List.cons_append] at enough ⊢
              rw [List.length_append, List.length_cons] at enough
              obtain ⟨bound, rfl⟩ : ∃ fewer, bound = fewer + 1 := ⟨bound - 1, by omega⟩
              obtain ⟨left, reads, leaves⟩ := laterYields more bound (by omega)
              refine ⟨left, ?_, leaves⟩
              rw [readTerms_more (yields operator (rest ++ ')' :: more) (.inl rfl)), reads]

/-- What is read alike is read alike before an operator and before the mark that closes its
group. -/
theorem YieldsAlike.before (alike : YieldsAlike compiler limit phase tree) (operator : Char)
    (ends : endsPattern operator = true) :
    ∃ stuck found, compiler.CompilesTo phase tree.tokens fun out =>
      ∀ c later, c = operator ∨ c = ')' →
        Yields stuck (readAtom limit true (out ++ c :: later)) found (c :: later) := by
  obtain ⟨stuck, found, compiles⟩ := alike
  refine ⟨stuck, found, compiles.imp fun out yields c later next => yields true _ ?_⟩
  rcases next with rfl | rfl
  · simpa [Ended] using ends
  · simp [Ended, endsPattern]

theorem accepts_group {inside : Text} (accepts : compiler.Accepts phase ('(' :: (inside ++ [')'])))
    (opens : phase.Opens) (noCall : '[' ∉ inside) : compiler.Accepts start inside :=
  have opened := accepts.left opens (by decide) (by decide)
  (opened.append_end trivial noCall (by decide)).1

/-- A group is read like what is in it. -/
theorem yieldsAlike_group {inner : List Text}
    (written : tree.tokens = ['('] :: inner ++ [[')']]) (noCall : '[' ∉ inner.flatten)
    (opens : phase.Opens)
    (alike : ∃ stuck found, compiler.CompilesTo start inner fun out => ∀ more,
      Yields stuck (readAlternatives true (readAtom limit true) (out ++ ')' :: more)) found
        (')' :: more)) :
    YieldsAlike compiler (limit + 1) phase tree := by
  obtain ⟨stuck, found, compiles⟩ := alike
  have grouped := (compiles.closed trivial noCall).left opens
    (show isLeftMark '(' = true by decide) (by decide)
  refine ⟨stuck, found, ?_⟩
  rw [written]
  refine CompilesTo.imp grouped ?_
  rintro _ ⟨_, rfl, out, rfl, yields⟩ inGroup rest ended
  have opens : skipBlanks ('(' :: (out ++ [')']) ++ rest) = '(' :: (out ++ ')' :: rest) := by
    simp [skipBlanks, Text.trimStart, show Text.isBlank '(' = false from by decide]
  exact (yields rest).readAtom_group opens ended

theorem yieldsAlike_or (two : 2 ≤ terms.length) (noCall : '[' ∉ (LockExpr.or terms).render)
    (each : ∀ term ∈ terms, '[' ∉ term.render → ∀ phase : Phase, phase.Opens →
      compiler.Accepts phase term.render → YieldsAlike compiler limit phase term)
    (opens : phase.Opens) (accepts : compiler.Accepts phase (LockExpr.or terms).render) :
    YieldsAlike compiler (limit + 1) phase (.or terms) := by
  have noTerms : '[' ∉ renderTerms '|' terms := fun inside => noCall (by simp [render, inside])
  -- A term is a condition with no operator of its own.
  have conditions (term : LockExpr) (member : term ∈ terms) (phase : Phase) (opens : phase.Opens)
      (accepts : compiler.Accepts phase term.render) :
      ∃ stuck found, compiler.CompilesTo phase term.tokens fun out =>
        ∀ c later, c = '|' ∨ c = ')' →
          Yields stuck (readChain '&' .and true (readAtom limit true) (out ++ c :: later))
            found (c :: later) := by
    have alike := each term member (fun inside => noTerms (mem_renderTerms member inside)) phase
      opens accepts
    obtain ⟨stuck, found, compiles⟩ := alike.before '|' (by decide)
    refine ⟨stuck, found, compiles.imp fun out yields c later next => ?_⟩
    refine (yields c later next).readChain_single (by simp) ?_ (by decide) .and
    rcases next with rfl | rfl <;> simp
  obtain ⟨stuck, founds, compiles⟩ := compilesTo_terms (by decide) (by decide)
    (List.ne_nil_of_length_pos (Nat.lt_of_succ_lt two)) noTerms conditions (.inl rfl)
    (accepts_group (by simpa [render] using accepts) opens noTerms)
  exact yieldsAlike_group (by rw [tokens]) (by rwa [flatten_tokensIn]) opens
    ⟨stuck, chain .or founds, compiles.imp fun _ yields more =>
      (yields more _ (Nat.le_refl _)).readChain .or⟩

theorem yieldsAlike_and (two : 2 ≤ terms.length) (noCall : '[' ∉ (LockExpr.and terms).render)
    (each : ∀ term ∈ terms, '[' ∉ term.render → ∀ phase : Phase, phase.Opens →
      compiler.Accepts phase term.render → YieldsAlike compiler limit phase term)
    (opens : phase.Opens) (accepts : compiler.Accepts phase (LockExpr.and terms).render) :
    YieldsAlike compiler (limit + 1) phase (.and terms) := by
  have noTerms : '[' ∉ renderTerms '&' terms := fun inside => noCall (by simp [render, inside])
  obtain ⟨stuck, founds, compiles⟩ := compilesTo_terms (by decide) (by decide)
    (List.ne_nil_of_length_pos (Nat.lt_of_succ_lt two)) noTerms
    (fun term member phase opens accepts =>
      have alike := each term member (fun inside => noTerms (mem_renderTerms member inside)) phase
        opens accepts
      alike.before '&' (by decide))
    (.inl rfl) (accepts_group (by simpa [render] using accepts) opens noTerms)
  refine yieldsAlike_group (by rw [tokens]) (by rwa [flatten_tokensIn]) opens
    ⟨stuck, chain .and founds, compiles.imp fun _ yields more => ?_⟩
  have conditions := (yields more _ (Nat.le_refl _)).readChain .and
  exact conditions.readChain_single (by simp) (by simp) (by decide) .or

theorem yieldsAlike_not {inner : LockExpr}
    (alike : compiler.Accepts start inner.render → YieldsAlike compiler limit start inner)
    (opens : phase.Opens) (accepts : compiler.Accepts phase (LockExpr.not inner).render) :
    YieldsAlike compiler (limit + 1) phase (.not inner) := by
  have below : compiler.Accepts start inner.render :=
    Accepts.left (by simpa [render] using accepts) opens
      (show isLeftMark '!' = true by decide) (by decide)
  obtain ⟨stuck, found, compiles⟩ := alike below
  refine ⟨stuck, .not found, (compiles.left opens (by decide) (by decide)).imp ?_⟩
  rintro _ ⟨out, rfl, yields⟩ inGroup rest ended
  obtain ⟨left, reads, leaves⟩ := yields inGroup rest ended
  have negates : skipBlanks ('!' :: out ++ rest) = '!' :: (out ++ rest) := rfl
  exact ⟨left, by rw [readAtom_not negates, reads], leaves⟩

/-! ## Trees -/

/-- A tree is compiled to a text that is read alike, however blanks stand next to its words. -/
theorem yieldsAlike (legible : Legible limit tree) (noCall : '[' ∉ tree.render)
    (opens : phase.Opens) (accepts : compiler.Accepts phase tree.render) :
    YieldsAlike compiler limit phase tree := by
  induction tree generalizing limit phase with
  | or terms ih =>
      obtain ⟨fewer, rfl⟩ := legible.exists_limit (by simp [nesting])
      refine yieldsAlike_or (legible.tidy _ (mem_nodes_self _)) noCall ?_ opens accepts
      intro term member noCall phase opens accepts
      exact ih term member (legible.part (.or_term member)) noCall opens accepts
  | and terms ih =>
      obtain ⟨fewer, rfl⟩ := legible.exists_limit (by simp [nesting])
      refine yieldsAlike_and (legible.tidy _ (mem_nodes_self _)) noCall ?_ opens accepts
      intro term member noCall phase opens accepts
      exact ih term member (legible.part (.and_term member)) noCall opens accepts
  | not inner ih =>
      obtain ⟨fewer, rfl⟩ := legible.exists_limit (by simp [nesting])
      refine yieldsAlike_not (fun accepts => ?_) opens accepts
      exact ih (legible.part (.not_inner inner)) (fun inside => noCall (by simp [render, inside]))
        (.inl rfl) accepts
  | number value =>
      exact yieldsAlike_number (legible.tidy _ (mem_nodes_self _)).1 opens accepts
  | attrTest name pattern =>
      exact yieldsAlike_attrTest (legible.tidy _ (mem_nodes_self _))
        (legible.unmarked name pattern (mem_nodes_self _))
        (by simpa [render, testText] using noCall) opens accepts
  | ref kind name =>
      refine yieldsAlike_ref (legible.tidy _ (mem_nodes_self _)) (fun inside => ?_) opens accepts
      exact noCall (by simp [render, inside])
  | indirect name =>
      exact yieldsAlike_indirect (legible.tidy _ (mem_nodes_self _))
        (by simpa [render] using noCall) opens accepts
  | indirectLock name =>
      exact yieldsAlike_indirectLock (legible.tidy _ (mem_nodes_self _))
        (by simpa [render] using noCall) opens accepts
  | indirectAttr target test =>
      rcases test with - | ⟨name, pattern⟩
      · exact yieldsAlike_indirectAttr_none (legible.tidy _ (mem_nodes_self _))
          (by simpa [render] using noCall) opens accepts
      · exact yieldsAlike_indirectAttr_some (legible.tidy _ (mem_nodes_self _))
          (by simpa [render, testText] using noCall) opens accepts
  | tooDeep => exact absurd (mem_nodes_self _) legible.complete

end Trees

end LockExpr

/-! ## Locks -/

namespace Compiler

open LockExpr Phase

/-- What is compiled of a text is the same with more room, if nothing of it is cut off. -/
theorem compile_of_untruncated {compiler : Compiler} {text written : Text} {bufferLen : Nat}
    (actor : compiler.world.isValid compiler.actor)
    (writes : compiler.write (lockParts text) = .ok written)
    (untruncated : compiler.Untruncated text bufferLen) :
    ∃ compiled, compiler.compile text bufferLen = .ok compiled ∧ compiled.text = written := by
  have room : Text.bytes written ≤ bufferLen + Text.bytes written + 1 - 1 := by omega
  obtain ⟨roomy, compiles, text⟩ := compile_of_write actor writes room
  have same := untruncated _ (by omega : bufferLen ≤ bufferLen + Text.bytes written + 1)
  rw [compiles] at same
  obtain ⟨compiled, here, sameText⟩ := map_eq_ok.mp same.symm
  exact ⟨compiled, here, sameText.trans text⟩

/-! ### Blanks before marks -/

/-- A word behind blanks that stand where a subject is expected.  No left mark ends it, so it holds
all that is behind the blanks up to the next right mark.  A colon there would make it the name of a
test. -/
inductive BehindBlanks (word : Text) : Text → Prop where
  | intro {first blanks ahead : Text} (opens : (scan start first).2.Opens)
      (blank : Text.Blank blanks) (present : blanks ≠ []) (plain : IsPlain word)
      (stops : Faces true ahead) (notTest : ahead.head? ≠ some ':') :
      BehindBlanks word (first ++ (blanks ++ (word ++ ahead)))

section BehindBlanks

variable {blanks word ahead : Text}

/-- Blanks where a subject is expected begin its first word, whatever mark stands behind them. -/
theorem cut_blanks {phase : Phase} (opens : phase.Opens) (blank : Text.Blank blanks)
    (present : blanks ≠ []) (plain : IsPlain word) (stops : Faces true ahead) :
    cut phase (blanks ++ (word ++ ahead)) = cut (.subject (blanks ++ word) false) ahead := by
  have begun : scan phase (blanks ++ (word ++ ahead)) =
      scan (.subject [] false) (blanks ++ (word ++ ahead)) := by
    refine opens.scan_eq_subject (by simp [present]) fun c head => ?_
    obtain ⟨b, more, rfl⟩ := List.exists_cons_of_ne_nil present
    obtain rfl : b = c := by simpa using head
    obtain ⟨left, right, -⟩ := not_mark_of_isBlank (blank b List.mem_cons_self)
    exact ⟨left, right⟩
  have words := cut_subject blanks false (word ++ ahead)
  rw [wordFrom_append plain stops] at words
  rw [← words, cut, begun, scan_append, scan_subject_blanks blank]
  rfl

/-- A first word without calls is looked up if it is not the name of a test. -/
theorem object_mem_cut_subject (noCall : '[' ∉ word) (stops : Faces true ahead)
    (notTest : ahead.head? ≠ some ':') : object word ∈ cut (.subject word false) ahead := by
  cases ahead with
  | nil => simp [finish, alone_of_not_mem noCall]
  | cons c more =>
      have notColon : c ≠ ':' := by simpa using notTest
      rw [cut_cons, subject_next_mark (stops c rfl) noCall]
      simp [closing, notColon, alone_of_not_mem noCall]

/-- What stands behind such blanks has to name an object, with all the marks that it begins with. -/
theorem exists_of_behindBlanks {compiler : Compiler} {text : Text} {bufferLen : Nat}
    {compiled : CompiledLock} (compiles : compiler.compile text bufferLen = .ok compiled)
    (untruncated : compiler.Untruncated text bufferLen) (behind : BehindBlanks word text) :
    ∃ target, compiler.objectOf ⟨word⟩ = .ok target := by
  obtain @⟨first, blanks, ahead, opens, blank, present, plain, stops, notTest⟩ := behind
  have noCall : '[' ∉ blanks ++ word :=
    List.not_mem_append (fun member => (not_mark_of_isBlank (blank _ member)).2.2 rfl)
      fun member => (plain _ member).2 rfl
  have looked := object_mem_cut_subject noCall stops notTest
  have writes := write_of_untruncated compiles untruncated
  rw [lockParts_eq_cut (by simp [present]), cut_append,
    cut_blanks opens blank present plain stops] at writes
  obtain ⟨target, found⟩ := (write_eq_ok.mp writes).1.2 _ (List.mem_append_right _ looked)
  have same : Text.trim (blanks ++ word) = Text.trim word := by
    simpa using Text.trim_padded blank Text.blank_nil word
  exact ⟨target, by simpa [objectOf, same] using found⟩

end BehindBlanks

/-! ### Blanks beside letters -/

/-- Blanks next to the letters of a lock make no difference to what its compiled text is read as.
Blanks before a mark do: where a subject is expected they begin a word that goes on with the mark,
and a lock is not accepted unless this word names an object. -/
theorem parse_compile_spaced {compiler : Compiler} {tree : LockExpr} {text : Text} {bufferLen : Nat}
    {compiled : CompiledLock} (again : parse tree.render = tree) (complete : .tooDeep ∉ tree.nodes)
    (noCall : '[' ∉ tree.render) (compiles : compiler.compile tree.render bufferLen = .ok compiled)
    (whole : compiler.Untruncated tree.render bufferLen)
    (words : SpacedByWords false tree.tokens text)
    (spacedWhole : compiler.Untruncated text bufferLen) :
    (∃ other, compiler.compile text bufferLen = .ok other ∧
      parse other.text = parse compiled.text) ∧
        ∀ loose word other, compiler.compile loose bufferLen = .ok other →
          compiler.Untruncated loose bufferLen → BehindBlanks word loose →
            ∃ target, compiler.objectOf ⟨word⟩ = .ok target := by
  refine ⟨?_, fun _ _ _ => exists_of_behindBlanks⟩
  have written := flatten_tokens tree
  by_cases empty : tree.render = []
  · obtain rfl := words.eq_nil (written.trans empty)
    exact ⟨compiled, empty ▸ compiles, rfl⟩
  have present : text ≠ [] := by
    rintro rfl
    exact empty (written ▸ List.sublist_nil.mp words.flatten_sublist)
  have writes := write_of_untruncated compiles whole
  rw [lockParts_eq_cut empty] at writes
  obtain ⟨stuck, found, alike⟩ := yieldsAlike (wellFormed_of_parse_render again complete) noCall
    (.inl rfl) ⟨_, writes⟩
  have reads {out : Text} (yields : ∀ inGroup rest, Ended rest →
      Yields stuck (readAtom maxNesting inGroup (out ++ rest)) found rest) : parse out = found := by
    have here := yields false [] ended_nil
    rw [List.append_nil] at here
    exact parse_of_yields here
  have compact : SpacedByWords false tree.tokens tree.render := written ▸ .compact false tree.tokens
  obtain ⟨out, outWrites, yields⟩ := alike _ compact
  obtain ⟨otherOut, otherWrites, otherYields⟩ := alike text words
  obtain rfl := Except.ok.inj (writes.symm.trans outWrites)
  rw [← lockParts_eq_cut present] at otherWrites
  obtain ⟨other, otherCompiles, rfl⟩ :=
    compile_of_untruncated (isValid_of_compile compiles) otherWrites spacedWhole
  exact ⟨other, otherCompiles, (reads otherYields).trans (reads yields).symm⟩

/-- A lone player's lock is read alike with blanks next to its words.  A blank before the player's
name does no harm either, but one before a mark is taken for the start of a name. -/
theorem parse_compile_spaced_ofPlayer :
    let compiler : Compiler := ⟨.ofPlayer ['p'], (World.ofPlayer ['p']).matcher, .system⟩
    let tree := LockExpr.or [.not (.ref .any ['m', 'e']), .attrTest ['s', 'e', 'x'] ['m', '*']]
    compiler.compile tree.render 64 = .ok ⟨"(!#0|sex:m*)".toList, []⟩ ∧
      compiler.compile "(! me | sex : m* )".toList 64 = .ok ⟨"(!#0| sex : m* )".toList, []⟩ ∧
        parse "(!#0| sex : m* )".toList = parse "(!#0|sex:m*)".toList ∧
          (BehindBlanks "me".toList "! me".toList ∧
            compiler.compile "! me".toList 64 = .ok ⟨"!#0".toList, []⟩ ∧
              ∃ target, compiler.objectOf ⟨"me".toList⟩ = .ok target) ∧
            BehindBlanks "!me".toList " !me".toList ∧
              compiler.compile "!me".toList 64 = .ok ⟨"!#0".toList, []⟩ ∧
                compiler.compile " !me".toList 64 = .error (.noMatch "!me".toList) := by
  intro compiler tree
  have again : parse tree.render = tree := by cbv
  have complete : LockExpr.tooDeep ∉ tree.nodes := by
    simp [tree, nodes, descendants, nodesIn]
  have compiles : compiler.compile tree.render 64 = .ok ⟨"(!#0|sex:m*)".toList, []⟩ := by
    decide +kernel
  have spaced : compiler.compile "(! me | sex : m* )".toList 64 =
      .ok ⟨"(!#0| sex : m* )".toList, []⟩ := by decide +kernel
  have nothing : Text.Blank [] := Text.blank_nil
  have single : Text.Blank [' '] := by decide
  have words : SpacedByWords false tree.tokens "(! me | sex : m* )".toList :=
    .token nothing (.inl rfl) <| .token nothing (.inl rfl) <| .token nothing (.inl rfl) <|
      .token single (by decide) <| .token single (by decide) <| .token single (by decide) <|
        .token single (by decide) <| .token single (by decide) <| .token single (by decide) <|
          .ends nothing (.inl rfl)
  obtain ⟨⟨other, otherCompiles, reads⟩, named⟩ := parse_compile_spaced again complete (by decide)
    compiles (untruncated_of_slack compiles (by decide)) words
    (untruncated_of_slack spaced (by decide))
  obtain rfl := Except.ok.inj (spaced.symm.trans otherCompiles)
  have negated : compiler.compile "! me".toList 64 = .ok ⟨"!#0".toList, []⟩ := by decide +kernel
  have begins : BehindBlanks "me".toList "! me".toList :=
    @BehindBlanks.intro _ ['!'] [' '] [] (.inl rfl) single (by simp) (by decide) (by simp [Faces])
      (by simp)
  have marked : BehindBlanks "!me".toList " !me".toList :=
    @BehindBlanks.intro _ [] [' '] [] (.inl rfl) single (by simp) (by decide) (by simp [Faces])
      (by simp)
  have found := named _ _ _ negated (untruncated_of_slack negated (by decide)) begins
  exact ⟨compiles, spaced, reads, ⟨begins, negated, found⟩, marked, by decide +kernel,
    by decide +kernel⟩

end Compiler
end WorldLocks
