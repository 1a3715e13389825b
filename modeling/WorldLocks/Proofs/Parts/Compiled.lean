import WorldLocks.Proofs.Parsing.Spacing
import WorldLocks.Proofs.Parts.RoundTrip
import WorldLocks.Proofs.Parts.Trees

/-! What compiling does to the tree of a lock.  The compiler works through the text from left to
right, and the parser reads a tree; both go through the parts of the tree in the same order, so the
compiled text is read as the tree with numbers for the names of objects. -/

set_option autoImplicit false

namespace WorldLocks

open Cursor LockPart

namespace LockExpr

variable {tree : LockExpr} {terms : List LockExpr} {names : Text → Text} {name pattern : Text}

/-! ## Renaming objects -/

/-- The name of an attribute with the object before its dot renamed, if it has a dot. -/
def renameTest (names : Text → Text) (name : Text) : Text :=
  match Text.splitOnce '.' name with
  | some (target, attr) => names target ++ '.' :: attr
  | none => name

mutual

/-- A tree with every object renamed and nothing else changed. -/
def renameObjects (names : Text → Text) : LockExpr → LockExpr
  | .or terms => .or (renameIn names terms)
  | .and terms => .and (renameIn names terms)
  | .not inner => .not (renameObjects names inner)
  | .number value => .number value
  | .attrTest name pattern => .attrTest (renameTest names name) pattern
  | .ref kind name => .ref kind (names name)
  | .indirect name => .indirect (names name)
  | .indirectLock name => .indirectLock (names name)
  | .indirectAttr target (some (name, pattern)) =>
    .indirectAttr (names target) (some (renameTest names name, pattern))
  | .indirectAttr target none => .indirectAttr (names target) none
  | .tooDeep => .tooDeep

def renameIn (names : Text → Text) : List LockExpr → List LockExpr
  | [] => []
  | term :: later => renameObjects names term :: renameIn names later

end

theorem renameIn_eq_map (names : Text → Text) (terms : List LockExpr) :
    renameIn names terms = terms.map (renameObjects names) := by
  induction terms with
  | nil => rfl
  | cons term later ih => rw [renameIn, ih, List.map_cons]

/-- Renaming the objects of a tree renames those of its nodes. -/
theorem nodes_renameObjects (names : Text → Text) (tree : LockExpr) :
    (tree.renameObjects names).nodes = tree.nodes.map (renameObjects names) := by
  have inTerms (terms : List LockExpr)
      (ih : ∀ term ∈ terms,
        (term.renameObjects names).nodes = term.nodes.map (renameObjects names)) :
      nodesIn (renameIn names terms) = (nodesIn terms).map (renameObjects names) := by
    rw [renameIn_eq_map, nodesIn_eq_flatMap, nodesIn_eq_flatMap, List.flatMap_map, List.map_flatMap]
    exact List.flatMap_congr ih
  induction tree with
  | or terms ih => simp [nodes, renameObjects, descendants, inTerms terms ih]
  | and terms ih => simp [nodes, renameObjects, descendants, inTerms terms ih]
  | not inner ih =>
      rw [nodes, nodes] at ih
      simp [nodes, renameObjects, descendants, ih]
  | indirectAttr target test => cases test <;> simp [nodes, renameObjects, descendants]
  | number _ | attrTest _ _ | ref _ _ | indirect _ | indirectLock _ | tooDeep =>
      simp [nodes, renameObjects, descendants]

theorem nesting_renameObjects (names : Text → Text) (tree : LockExpr) :
    (tree.renameObjects names).nesting = tree.nesting := by
  have inTerms (terms : List LockExpr)
      (ih : ∀ term ∈ terms, (term.renameObjects names).nesting = term.nesting) :
      nestingIn (renameIn names terms) = nestingIn terms := by
    induction terms with
    | nil => rfl
    | cons term later inLater =>
        obtain ⟨here, others⟩ := List.forall_mem_cons.mp ih
        rw [renameIn, nestingIn, nestingIn, here, inLater others]
  induction tree with
  | or terms ih => rw [renameObjects, nesting, nesting, inTerms terms ih]
  | and terms ih => rw [renameObjects, nesting, nesting, inTerms terms ih]
  | not inner ih => rw [renameObjects, nesting, nesting, ih]
  | indirectAttr target test => cases test <;> simp [renameObjects, nesting]
  | number _ | attrTest _ _ | ref _ _ | indirect _ | indirectLock _ | tooDeep =>
      simp [renameObjects, nesting]

theorem eq_tooDeep_of_renameObjects (same : tree.renameObjects names = .tooDeep) :
    tree = .tooDeep := by
  cases tree with
  | tooDeep => rfl
  | indirectAttr target test => cases test <;> simp [renameObjects] at same
  | _ => simp [renameObjects] at same

theorem eq_attrTest_of_renameObjects (same : tree.renameObjects names = .attrTest name pattern) :
    ∃ first, tree = .attrTest first pattern ∧ renameTest names first = name := by
  cases tree with
  | attrTest first matched =>
      rw [renameObjects] at same
      obtain ⟨renamed, rfl⟩ := LockExpr.attrTest.inj same
      exact ⟨first, rfl, renamed⟩
  | indirectAttr target test => cases test <;> simp [renameObjects] at same
  | _ => simp [renameObjects] at same

/-! ## Renamed parts -/

theorem textOf_testParts (names : Text → Text) (name pattern : Text) :
    textOf ((testParts name pattern).map (rename names)) =
      testText (renameTest names name) pattern := by
  unfold testParts renameTest testText
  cases Text.splitOnce '.' name with
  | none => simp [rename, LockPart.text]
  | some halves => simp [rename, LockPart.text]

/-- The renamed parts of a tree are the text of the renamed tree. -/
theorem textOf_parts (names : Text → Text) (tree : LockExpr) :
    textOf (tree.parts.map (rename names)) = (tree.renameObjects names).render := by
  have inTerms (operator : Char) (terms : List LockExpr)
      (ih : ∀ term ∈ terms,
        textOf (term.parts.map (rename names)) = (term.renameObjects names).render) :
      textOf ((partsIn operator terms).map (rename names)) =
        renderTerms operator (renameIn names terms) := by
    induction terms with
    | nil => rfl
    | cons term later inLater =>
        obtain ⟨here, others⟩ := List.forall_mem_cons.mp ih
        cases later with
        | nil => simp [partsIn, renameIn, renderTerms, here]
        | cons next later =>
            have behindIt := inLater others
            rw [renameIn] at behindIt
            simp [partsIn, renameIn, renderTerms, here, behindIt, rename, LockPart.text]
  induction tree with
  | or terms ih => simp [parts, renameObjects, render, inTerms '|' terms ih, rename, LockPart.text]
  | and terms ih => simp [parts, renameObjects, render, inTerms '&' terms ih, rename, LockPart.text]
  | not inner ih => simp [parts, renameObjects, render, ih, rename, LockPart.text]
  | attrTest name pattern => simp [parts, renameObjects, render, textOf_testParts]
  | indirectAttr target test =>
      rcases test with - | ⟨name, pattern⟩ <;>
        simp [parts, renameObjects, render, textOf_testParts, rename, LockPart.text]
  | number _ | ref _ _ | indirect _ | indirectLock _ | tooDeep =>
      simp [parts, renameObjects, render, rename, LockPart.text]

/-! ## Named objects -/

/-- The object that a test names before a dot. -/
def testObject (name : Text) : List Text :=
  ((Text.splitOnce '.' name).map Prod.fst).toList

/-- The objects that a node itself names. -/
def ownObjects : LockExpr → List Text
  | .attrTest name _ => testObject name
  | .ref _ name | .indirect name | .indirectLock name | .indirectAttr name none => [name]
  | .indirectAttr target (some (name, _)) => target :: testObject name
  | .or _ | .and _ | .not _ | .number _ | .tooDeep => []

/-- The names of objects in a tree, in order. -/
def objects (tree : LockExpr) : List Text := tree.nodes.flatMap ownObjects

theorem mem_objects_of_part {branch : LockExpr} {word : Text} (below : Part branch tree)
    (member : word ∈ branch.objects) : word ∈ tree.objects := by
  obtain ⟨node, inside, own⟩ := List.mem_flatMap.mp member
  exact List.mem_flatMap.mpr ⟨node, below.nodes inside, own⟩

theorem mem_objects_self {word : Text} (own : word ∈ tree.ownObjects) : word ∈ tree.objects :=
  List.mem_flatMap.mpr ⟨tree, mem_nodes_self tree, own⟩

/-- A part is a character that is copied, or names one of some objects. -/
def IsPartOf (words : List Text) : LockPart → Prop
  | .copied _ => True
  | .object word => word ∈ words
  | .noPattern => False

theorem isPartOf_testParts {words : List Text} (own : ∀ word ∈ testObject name, word ∈ words) :
    ∀ part ∈ testParts name pattern, IsPartOf words part := by
  have copies (text : Text) : ∀ part ∈ copy text, IsPartOf words part := by
    intro part member
    obtain ⟨c, -, rfl⟩ := List.mem_map.mp member
    trivial
  unfold testParts
  unfold testObject at own
  cases split : Text.splitOnce '.' name with
  | none => exact copies _
  | some halves =>
      rw [split] at own
      exact List.forall_mem_cons.mpr ⟨own _ (by simp), copies _⟩

theorem mem_partsIn {operator : Char} {part : LockPart} (member : part ∈ partsIn operator terms) :
    part = copied operator ∨ ∃ term ∈ terms, part ∈ term.parts := by
  induction terms with
  | nil => cases member
  | cons term later ih =>
      cases later with
      | nil => exact .inr ⟨term, List.mem_cons_self, by simpa [partsIn] using member⟩
      | cons next later =>
          rw [partsIn, List.mem_append, List.mem_cons] at member
          rcases member with here | rfl | behind
          · exact .inr ⟨term, List.mem_cons_self, here⟩
          · exact .inl rfl
          · rcases ih behind with between | ⟨term, inside, here⟩
            · exact .inl between
            · exact .inr ⟨term, List.mem_cons_of_mem _ inside, here⟩

theorem IsPartOf.mono {few many : List Text} {part : LockPart} (is : IsPartOf few part)
    (more : ∀ word ∈ few, word ∈ many) : IsPartOf many part := by
  cases part with
  | copied c => trivial
  | object word => exact more word is
  | noPattern => exact is

/-- The words that the compiler looks up in the text of a tree are the names of its objects. -/
theorem isPartOf_parts (tree : LockExpr) : ∀ part ∈ tree.parts, IsPartOf tree.objects part := by
  have inTerms {tree : LockExpr} (operator : Char) (terms : List LockExpr)
      (below : ∀ term ∈ terms, Part term tree)
      (ih : ∀ term ∈ terms, ∀ part ∈ term.parts, IsPartOf term.objects part) :
      ∀ part ∈ copied '(' :: partsIn operator terms ++ [copied ')'],
        IsPartOf tree.objects part := by
    intro part member
    simp only [List.cons_append, List.mem_cons, List.mem_append, List.mem_nil_iff, or_false] at member
    rcases member with rfl | inside | rfl
    · trivial
    · rcases mem_partsIn inside with rfl | ⟨term, member, here⟩
      · trivial
      · exact (ih term member part here).mono fun _ => mem_objects_of_part (below term member)
    · trivial
  induction tree with
  | or terms ih => rw [parts]; exact inTerms '|' terms (fun _ => .or_term) ih
  | and terms ih => rw [parts]; exact inTerms '&' terms (fun _ => .and_term) ih
  | not inner ih =>
      rw [parts]
      refine List.forall_mem_cons.mpr ⟨trivial, fun part member => ?_⟩
      exact (ih part member).mono fun _ => mem_objects_of_part (.not_inner inner)
  | number value =>
      intro part member
      obtain ⟨c, -, rfl⟩ := List.mem_map.mp member
      trivial
  | attrTest name pattern =>
      exact isPartOf_testParts fun _ => @mem_objects_self (.attrTest name pattern) _
  | ref kind name =>
      have own : name ∈ (LockExpr.ref kind name).objects := mem_objects_self List.mem_cons_self
      cases kind <;> simp [parts, refMark, IsPartOf, own]
  | indirect name | indirectLock name =>
      simp [parts, IsPartOf, objects, nodes, descendants, ownObjects]
  | indirectAttr target test =>
      rcases test with - | ⟨name, pattern⟩
      · simp [parts, IsPartOf, objects, nodes, descendants, ownObjects]
      · have own : target ∈ (LockExpr.indirectAttr target (some (name, pattern))).objects :=
          mem_objects_self List.mem_cons_self
        have tested : ∀ part ∈ testParts name pattern,
            IsPartOf (LockExpr.indirectAttr target (some (name, pattern))).objects part :=
          isPartOf_testParts fun _ member => mem_objects_self (List.mem_cons_of_mem _ member)
        intro part member
        simp only [parts, List.cons_append, List.nil_append, List.mem_cons, List.mem_append,
          List.mem_nil_iff, or_false] at member
        rcases member with rfl | rfl | rfl | rfl | inside | rfl
        · trivial
        · trivial
        · exact own
        · trivial
        · exact tested part inside
        · trivial
  | tooDeep => simp [parts, IsPartOf]

/-! ## Numbered trees -/

theorem isName_literal (ref : Dbref) : IsName ref.literal := by
  have solid : ∀ c ∈ ref.literal, Text.isBlank c = false ∧ isRightMark c = false := by
    have digits {n : Nat} {c : Char} (member : c ∈ Text.ofNat n) :
        Text.isBlank c = false ∧ isRightMark c = false :=
      have digit := Text.isDigit_of_mem_ofNat member
      ⟨Text.isBlank_of_isDigit digit, isRightMark_of_isDigit digit⟩
    intro c member
    rcases List.mem_cons.mp member with rfl | member
    · decide
    · cases number : ref.number with
      | ofNat n =>
          rw [number] at member
          exact digits member
      | negSucc n =>
          rw [number] at member
          rcases List.mem_cons.mp member with rfl | member
          · decide
          · exact digits member
  exact ⟨Text.trim_of_no_blanks fun c member => (solid c member).1,
    fun c member => (solid c member).2⟩

/-- The names of objects replaced by literals. -/
def literals (number : Text → Dbref) (name : Text) : Text := (number name).literal

theorem isAttrName_renameTest (number : Text → Dbref) (named : IsTestName name) :
    IsAttrName (renameTest (literals number) name) := by
  unfold renameTest
  cases split : Text.splitOnce '.' name with
  | none => exact ⟨named.trimmed, fun c member => (named.unmarked c member).1⟩
  | some halves =>
      obtain ⟨target, attr⟩ := halves
      obtain ⟨-, plain⟩ := named.plain_target split
      have literal := isName_literal (number target)
      refine ⟨Text.trimmed_iff.mpr ⟨?_, ?_⟩, fun c member => ?_⟩
      · intro c head
        obtain rfl : '#' = c := by simpa [literals, Dbref.literal] using head
        decide
      · have last := (Text.trimmed_iff.mp named.trimmed).2
        rw [Text.splitOnce_eq_some split] at last
        simpa [List.getLast?_append] using last
      · rcases List.mem_append.mp member with early | late
        · simp [literal.unmarked c early]
        · rcases List.mem_cons.mp late with rfl | late
          · decide
          · simp [(plain c late).1]

theorem begins_renameTest {kind : Char → Bool} (number : Text → Dbref) (hash : kind '#' = false)
    (not : name.begins kind = false) : (renameTest (literals number) name).begins kind = false := by
  unfold renameTest
  cases Text.splitOnce '.' name with
  | none => exact not
  | some halves => exact hash

theorem IsTestPattern.isPattern (matched : IsTestPattern pattern) : IsPattern pattern where
  trimmed := matched.trimmed
  unended := fun c member => Bool.eq_false_iff.mpr fun ends => by
    have marked := isRightMark_of_endsPattern ends
    rw [(matched.plain c member).1] at marked
    cases marked

theorem tidy_renameObjects (number : Text → Dbref) {node : LockExpr} (typeable : node.Typeable) :
    (node.renameObjects (literals number)).Tidy := by
  cases node with
  | or terms => simpa [renameObjects, Tidy, Typeable, renameIn_eq_map] using typeable
  | and terms => simpa [renameObjects, Tidy, Typeable, renameIn_eq_map] using typeable
  | not inner => trivial
  | number value => exact typeable.elim
  | tooDeep => exact typeable.elim
  | attrTest name pattern =>
      obtain ⟨named, undigited, matched⟩ := typeable
      exact ⟨isAttrName_renameTest number named, begins_renameTest number (by decide) undigited,
        matched.isPattern⟩
  | ref kind name => exact ⟨isName_literal _, rfl, fun _ => rfl⟩
  | indirect name => exact ⟨isName_literal _, by simp [literals, Dbref.literal]⟩
  | indirectLock name => exact isName_literal _
  | indirectAttr target test =>
      rcases test with - | ⟨name, pattern⟩
      · exact isName_literal _
      · obtain ⟨-, named, matched⟩ := typeable
        exact ⟨isName_literal _, isAttrName_renameTest number named, matched.isPattern⟩

/-- A tree that can be typed to be compiled. -/
structure Typed (tree : LockExpr) : Prop where
  typeable : ∀ node ∈ tree.nodes, node.Typeable
  shallow : tree.nesting ≤ maxNesting

/-- A typed tree with numbers for its objects can be read from its text. -/
theorem Typed.wellFormed (typed : tree.Typed) (number : Text → Dbref) :
    (tree.renameObjects (literals number)).WellFormed := by
  obtain ⟨typeable, shallow⟩ := typed
  have nodes := nodes_renameObjects (literals number) tree
  refine ⟨⟨fun node member => ?_, fun member => ?_, ?_⟩, fun name pattern member => ?_⟩
  · rw [nodes] at member
    obtain ⟨original, inside, rfl⟩ := List.mem_map.mp member
    exact tidy_renameObjects number (typeable original inside)
  · rw [nodes] at member
    obtain ⟨original, inside, same⟩ := List.mem_map.mp member
    obtain rfl := eq_tooDeep_of_renameObjects same
    exact typeable _ inside
  · rw [nesting_renameObjects]
    exact shallow
  · rw [nodes] at member
    obtain ⟨original, inside, same⟩ := List.mem_map.mp member
    obtain ⟨first, rfl, rfl⟩ := eq_attrTest_of_renameObjects same
    obtain ⟨named, -, -⟩ := typeable _ inside
    exact begins_renameTest number (by decide) named.bare

/-! ## Compiling -/

theorem render_ne_nil (typeable : tree.Typeable) : tree.render ≠ [] := by
  cases tree with
  | number value => exact typeable.elim
  | ref kind name =>
      obtain ⟨⟨⟨present, -⟩, -⟩, -⟩ := typeable
      simp [render, present]
  | indirectAttr target test => cases test <;> simp [render]
  | _ => simp [render, testText]

/-- The parts of the text of a typed tree are the parts of the tree. -/
theorem lockParts_render (typeable : AllTypeable tree) : lockParts tree.render = tree.parts := by
  rw [Phase.lockParts_eq_cut (render_ne_nil (typeable tree (mem_nodes_self tree)).1)]
  have scanned := cut_render typeable (.inl rfl) ended_nil
  simpa [Phase.finish] using scanned

theorem write_parts {compiler : Compiler} {number : Text → Dbref}
    (found : ∀ name ∈ tree.objects, compiler.objectOf ⟨name⟩ = .ok (number name)) :
    compiler.write tree.parts = .ok (tree.renameObjects (literals number)).render := by
  have parts := isPartOf_parts tree
  refine Compiler.write_eq_ok.mpr ⟨⟨fun member => parts _ member, fun word member =>
    ⟨number word, found word (parts _ member)⟩⟩, ?_⟩
  rw [← textOf_parts]
  refine congrArg textOf (List.map_congr_left fun part member => ?_)
  cases part with
  | object word =>
      have known := found word (parts _ member)
      simp [rename, literals, Compiler.numberOf, known]
  | copied c => rfl
  | noPattern => rfl

theorem Typed.isObjectName (typed : tree.Typed) : ∀ name ∈ tree.objects, IsObjectName name := by
  have ofTest {name target : Text} (named : IsTestName name) (member : target ∈ testObject name) :
      IsObjectName target := by
    unfold testObject at member
    cases split : Text.splitOnce '.' name with
    | none => simp [split] at member
    | some halves =>
        obtain rfl : target = halves.1 := by simpa [split] using member
        exact (named.dotted _ _ split).1
  intro name member
  obtain ⟨node, inside, own⟩ := List.mem_flatMap.mp member
  have typeable := typed.typeable node inside
  cases node with
  | attrTest first matched => exact ofTest typeable.1 own
  | ref kind first =>
      obtain rfl := List.mem_singleton.mp own
      exact typeable.1
  | indirect first | indirectLock first =>
      obtain rfl := List.mem_singleton.mp own
      exact typeable
  | indirectAttr target test =>
      rcases test with - | ⟨first, matched⟩
      · obtain rfl := List.mem_singleton.mp own
        exact typeable
      · obtain ⟨targeted, named, -⟩ := typeable
        rcases List.mem_cons.mp own with rfl | tested
        · exact targeted
        · exact ofTest named tested
  | _ => cases own

end LockExpr

namespace Compiler

open LockExpr

/-- The text of a typed tree compiles, and what it compiles to is read as the tree with the number
of every object for its name. -/
theorem parse_compile_render {compiler : Compiler} {tree : LockExpr} {number : Text → Dbref}
    {bufferLen : Nat} (typed : tree.Typed) (named : ∀ node ∈ tree.nodes, node.Named)
    (actor : compiler.world.isValid compiler.actor)
    (matched : ∀ name ∈ tree.objects,
      compiler.matcher compiler.actor name = .ok (.found (number name)))
    (room : Text.bytes (tree.renameObjects (literals number)).render + 2 ≤ bufferLen) :
    ∃ compiled, compiler.compile tree.render bufferLen = .ok compiled ∧
      compiled.text = (tree.renameObjects (literals number)).render ∧
        parse compiled.text = tree.renameObjects (literals number) := by
  have found : ∀ name ∈ tree.objects, compiler.objectOf ⟨name⟩ = .ok (number name) := by
    intro name member
    unfold objectOf
    dsimp only
    rw [(typed.isObjectName name member).trimmed, matched name member]
  have typeable : AllTypeable tree :=
    fun node member => ⟨typed.typeable node member, named node member⟩
  have written := write_parts found
  rw [← lockParts_render typeable] at written
  obtain ⟨compiled, compiles, text⟩ := compile_of_write actor written (by omega : _ ≤ bufferLen - 1)
  exact ⟨compiled, compiles, text, text ▸ parse_render (typed.wellFormed number)⟩

theorem isObjectName_me : IsObjectName ['m', 'e'] :=
  ⟨⟨by simp, by simp [isLeftMark, isRightMark]⟩, by decide⟩

/-- A lone player's lock on its own sex, given by a dotted name, compiles to one with its number. -/
theorem parse_compile_render_ofPlayer :
    let compiler : Compiler := ⟨.ofPlayer ['p'], (World.ofPlayer ['p']).matcher, .system⟩
    let tree := LockExpr.or [.ref .is ['m', 'e'], .attrTest "me.sex".toList ['m', '*']]
    ∃ compiled, compiler.compile tree.render 64 = .ok compiled ∧
      compiled.text = "(=#0|#0.sex:m*)".toList ∧
        parse compiled.text = .or [.ref .is ['#', '0'], .attrTest "#0.sex".toList ['m', '*']] := by
  intro compiler tree
  have me := isObjectName_me
  have test : IsTestName "me.sex".toList :=
    { trimmed := by decide +kernel
      unmarked := by simp [isRightMark]
      bare := rfl
      dotted := by
        intro target attr split
        obtain ⟨rfl, rfl⟩ : target = ['m', 'e'] ∧ attr = ['s', 'e', 'x'] := by
          have halves : Text.splitOnce '.' "me.sex".toList = some (['m', 'e'], ['s', 'e', 'x']) := by
            decide +kernel
          rw [halves] at split
          simpa [eq_comm] using split
        exact ⟨me, by decide⟩ }
  have typed : tree.Typed := by
    refine ⟨?_, by simp [tree, nesting, nestingIn, maxNesting]⟩
    simp only [tree, nodes, descendants, nodesIn, List.nil_append, List.forall_mem_cons]
    exact ⟨Nat.le_refl 2, ⟨me, rfl⟩, ⟨test, rfl, ⟨by decide, by decide⟩⟩, by simp⟩
  have named : ∀ node ∈ tree.nodes, node.Named := by
    simp [tree, nodes, descendants, nodesIn, Named]
  have matched : ∀ name ∈ tree.objects,
      compiler.matcher compiler.actor name = .ok (.found .system) := by
    have objects : tree.objects = [['m', 'e'], ['m', 'e']] := by decide +kernel
    have found : compiler.matcher compiler.actor ['m', 'e'] = .ok (.found .system) := by
      decide +kernel
    rw [objects]
    simpa using found
  obtain ⟨compiled, compiles, text, reads⟩ := @parse_compile_render compiler tree
    (fun _ => .system) 64 typed named (by decide) matched (by decide +kernel)
  have numbered : tree.renameObjects (literals fun _ => .system) =
      .or [.ref .is ['#', '0'], .attrTest "#0.sex".toList ['m', '*']] := by cbv
  exact ⟨compiled, compiles, text.trans (by decide +kernel), reads.trans numbered⟩

/-- Behind an operator, the colon of a test without a name is taken for an operator as well, and the
pattern for the name of an object. -/
theorem not_parse_compile_nameless :
    let compiler : Compiler := ⟨.ofPlayer ['p'], (World.ofPlayer ['p']).matcher, .system⟩
    let tree := LockExpr.and [.ref .any ['m', 'e'], .attrTest [] ['f', 'o', 'o']]
    tree.Typed ∧ compiler.world.isValid compiler.actor ∧
      (∀ name ∈ tree.objects, compiler.matcher compiler.actor name = .ok (.found .system)) ∧
        Text.bytes (tree.renameObjects (literals fun _ => .system)).render + 2 ≤ 64 ∧
          compiler.compile tree.render 64 = .error (.noMatch ['f', 'o', 'o']) := by
  intro compiler tree
  have me := isObjectName_me
  have test : IsTestName [] := ⟨by decide, by simp, rfl, fun _ _ split => by cases split⟩
  have typed : tree.Typed := by
    refine ⟨?_, by simp [tree, nesting, nestingIn, maxNesting]⟩
    simp only [tree, nodes, descendants, nodesIn, List.nil_append, List.forall_mem_cons]
    exact ⟨Nat.le_refl 2, ⟨me, rfl⟩, ⟨test, rfl, ⟨by decide, by decide⟩⟩, by simp⟩
  have objects : tree.objects = [['m', 'e']] := by decide +kernel
  have found : compiler.matcher compiler.actor ['m', 'e'] = .ok (.found .system) := by
    decide +kernel
  exact ⟨typed, by decide, by rw [objects]; simpa using found, by decide +kernel, by decide +kernel⟩

end Compiler
end WorldLocks
