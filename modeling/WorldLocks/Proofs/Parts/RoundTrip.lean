import WorldLocks.Proofs.Matching
import WorldLocks.Proofs.Parts.Renaming
import WorldLocks.Proofs.Parts.Writing
import WorldLocks.World.Lifecycle

/-! A compiled lock that is shown and compiled again is the same lock, whoever looks at it.  The
decompiler shows an object by a word that is cut as one word and means the same object to the
viewer, so the shown lock has the parts of the compiled one with only the words replaced. -/

set_option autoImplicit false

namespace WorldLocks

open Cursor LockPart

theorem unmarked_of_isDigit {c : Char} (digit : Text.isDigit c = true) :
    isLeftMark c = false ∧ isRightMark c = false ∧ c ≠ '[' := by
  refine ⟨Bool.eq_false_iff.mpr fun left => ?_, Bool.eq_false_iff.mpr fun right => ?_, ?_⟩
  · simp only [isLeftMark, Bool.or_eq_true, beq_iff_eq] at left
    rcases left with (((rfl | rfl) | rfl) | rfl) | rfl <;> exact absurd digit (by decide)
  · simp only [isRightMark, Bool.or_eq_true, beq_iff_eq] at right
    rcases right with ((((rfl | rfl) | rfl) | rfl) | rfl) | rfl <;> exact absurd digit (by decide)
  · rintro rfl
    exact absurd digit (by decide)

theorem isObjectWord_literal (target : Dbref) : IsObjectWord target.literal := by
  have digits {n : Nat} {c : Char} (member : c ∈ Text.ofNat n) :=
    unmarked_of_isDigit (Text.isDigit_of_mem_ofNat member)
  refine ⟨by simp [Dbref.literal], fun c member => ?_⟩
  rcases List.mem_cons.mp member with rfl | member
  · decide
  · cases number : target.number with
    | ofNat n =>
        rw [number] at member
        exact digits member
    | negSucc n =>
        rw [number] at member
        rcases List.mem_cons.mp member with rfl | member
        · decide
        · exact digits member

namespace Compiler

/-- The parts of a compiled lock are the parts of the lock, with numbers for the words. -/
theorem lockParts_of_write {compiler : Compiler} {text written : Text}
    (writes : compiler.write (lockParts text) = .ok written) :
    lockParts written = (lockParts text).map (rename compiler.numberOf) := by
  obtain ⟨⟨-, objects⟩, rfl⟩ := write_eq_ok.mp writes
  refine lockParts_rename fun word member => ?_
  obtain ⟨target, found⟩ := objects word member
  simpa [numberOf, found] using isObjectWord_literal target

end Compiler

namespace Decompiler

theorem isObjectWord_of_isPlainName {name : Text} (plain : isPlainName name) :
    IsObjectWord name ∧ Text.trim name = name := by
  simp only [isPlainName, Bool.and_eq_true, Bool.not_eq_true', List.isEmpty_eq_false_iff,
    beq_iff_eq, List.any_eq_false, Bool.or_eq_true, not_or] at plain
  obtain ⟨⟨⟨present, trimmed⟩, -⟩, unmarked⟩ := plain
  refine ⟨⟨present, fun c member => ?_⟩, trimmed⟩
  obtain ⟨⟨⟨left, right⟩, bracket⟩, -⟩ := unmarked c member
  exact ⟨by simpa using left, by simpa using right, bracket⟩

theorem numbered?_literal {index : Nat} (fits : index ≤ Dbref.maxNumber) :
    numbered? (Dbref.ofIndex index).literal = some (.ofIndex index) := by
  have read := Dbref.read?_literal fits
  have digits : (Text.ofNat index).all Text.isDigit = true :=
    List.all_eq_true.mpr fun _ member => Text.isDigit_of_mem_ofNat member
  rw [Dbref.literal_ofIndex] at read ⊢
  simp [numbered?, Text.ofNat_ne_nil, digits, read]

end Decompiler

namespace World

variable {world : World}

theorem shown_object (fits : world.Fits) {target : Dbref}
    (valid : world.isValid target) (viewer : Dbref) :
    IsObjectWord (Decompiler.object ⟨world, world.matcher, viewer⟩ target) ∧
      Compiler.objectOf ⟨world, world.matcher, viewer⟩
        ⟨Decompiler.object ⟨world, world.matcher, viewer⟩ target⟩ = .ok target := by
  obtain ⟨index, rfl, within⟩ := exists_index_of_isValid valid
  have slot : (world.slot? (.ofIndex index)).isSome := by simp [within]
  unfold Decompiler.object
  rw [if_pos slot]
  dsimp only
  split
  · next shown =>
    obtain ⟨plain, found⟩ := Bool.and_eq_true_iff.mp shown
    obtain ⟨word, trimmed⟩ := Decompiler.isObjectWord_of_isPlainName plain
    refine ⟨word, ?_⟩
    unfold Compiler.objectOf
    dsimp only
    rw [trimmed]
    unfold Decompiler.finds at found
    dsimp only at found
    split at found
    · next object matched =>
      rw [matched]
      simpa using found
    · cases found
  · refine ⟨isObjectWord_literal _, ?_⟩
    unfold Compiler.objectOf
    dsimp only
    rw [Dbref.trim_literal, matcher_literal fits valid]

theorem shown_literal (fits : world.Fits) {target : Dbref}
    (valid : world.isValid target) (viewer : Dbref) :
    Decompiler.word ⟨world, world.matcher, viewer⟩ ⟨target.literal⟩ =
      Decompiler.object ⟨world, world.matcher, viewer⟩ target := by
  obtain ⟨index, rfl, within⟩ := exists_index_of_isValid valid
  unfold Decompiler.word
  dsimp only
  rw [Dbref.trim_literal, Decompiler.numbered?_literal (fits.le_maxNumber within)]

theorem isValid_of_objectOf {actor target : Dbref} {word : Word}
    (found : Compiler.objectOf ⟨world, world.matcher, actor⟩ word = .ok target) :
    world.isValid target := by
  unfold Compiler.objectOf at found
  dsimp only at found
  split at found
  · next object matched =>
    obtain rfl := Except.ok.inj found
    exact isValid_of_matcher matched
  · cases found
  · cases found
  · cases found

/-- Whether every object is named by the number of one that exists, and no pattern is missing. -/
structure HoldsNumbers (world : World) (parts : List LockPart) : Prop where
  patterns : noPattern ∉ parts
  objects : ∀ word, object word ∈ parts → ∃ target, world.isValid target ∧ word = target.literal

/-- A compiled lock has the parts of the lock, with numbers for the words. -/
theorem lockParts_of_write {actor : Dbref} {text written : Text}
    (writes : Compiler.write ⟨world, world.matcher, actor⟩ (lockParts text) = .ok written) :
    lockParts written =
        (lockParts text).map (rename (Compiler.numberOf ⟨world, world.matcher, actor⟩)) ∧
      world.HoldsNumbers (lockParts written) := by
  obtain ⟨⟨patterns, objects⟩, -⟩ := Compiler.write_eq_ok.mp writes
  have parts := Compiler.lockParts_of_write writes
  refine ⟨parts, ?_, fun word member => ?_⟩
  · rw [parts, noPattern_mem_map_rename]
    exact patterns
  · rw [parts] at member
    obtain ⟨first, original, rfl⟩ := object_mem_map_rename.mp member
    obtain ⟨target, found⟩ := objects first original
    exact ⟨target, isValid_of_objectOf found, by simp [Compiler.numberOf, found]⟩

/-- A lock with numbers, shown to a viewer, has the same parts with the words that are shown. -/
theorem lockParts_of_shown (fits : world.Fits) {text : Text}
    (numbers : world.HoldsNumbers (lockParts text)) (viewer : Dbref) :
    lockParts (Decompiler.write ⟨world, world.matcher, viewer⟩ (lockParts text)) =
      (lockParts text).map
        (rename fun word => Decompiler.word ⟨world, world.matcher, viewer⟩ ⟨word⟩) := by
  rw [Decompiler.write_eq_textOf]
  refine lockParts_rename fun word member => ?_
  obtain ⟨target, valid, rfl⟩ := numbers.objects word member
  rw [shown_literal fits valid]
  exact (shown_object fits valid viewer).1

/-- A lock with numbers, shown to a viewer, compiles back for the viewer. -/
theorem write_shown (fits : world.Fits) {text : Text}
    (numbers : world.HoldsNumbers (lockParts text)) (viewer : Dbref) :
    Compiler.write ⟨world, world.matcher, viewer⟩
      (lockParts (Decompiler.write ⟨world, world.matcher, viewer⟩ (lockParts text))) =
        .ok text := by
  rw [lockParts_of_shown fits numbers]
  refine Compiler.write_eq_ok.mpr ⟨⟨?_, fun word member => ?_⟩, ?_⟩
  · rw [noPattern_mem_map_rename]
    exact numbers.patterns
  · obtain ⟨number, original, rfl⟩ := object_mem_map_rename.mp member
    obtain ⟨target, valid, rfl⟩ := numbers.objects number original
    rw [shown_literal fits valid]
    exact ⟨target, (shown_object fits valid viewer).2⟩
  · have back : ∀ part ∈ lockParts text,
        rename (Compiler.numberOf ⟨world, world.matcher, viewer⟩)
          (rename (fun word => Decompiler.word ⟨world, world.matcher, viewer⟩ ⟨word⟩) part) =
            part := by
      intro part member
      cases part with
      | object word =>
          obtain ⟨target, valid, rfl⟩ := numbers.objects word member
          simp [rename, Compiler.numberOf, shown_literal fits valid,
            (shown_object fits valid viewer).2]
      | copied c => rfl
      | noPattern => rfl
    have restored := (List.map_congr_left back).trans (List.map_id _)
    rw [List.map_map]
    exact (restored.symm ▸ textOf_lockParts text).symm

/-- A lock that compiles, shown to any viewer and compiled again by that viewer, is the same lock,
if nothing is cut off of the compiled and of the shown text. -/
theorem compile_decompile (fits : world.Fits)
    {actor viewer : Dbref} (viewerValid : world.isValid viewer) {text : Text} {bufferLen : Nat}
    {compiled : CompiledLock}
    (compiles : Compiler.compile ⟨world, world.matcher, actor⟩ text bufferLen = .ok compiled)
    (whole : Compiler.Untruncated ⟨world, world.matcher, actor⟩ text bufferLen)
    (shownWhole :
      Decompiler.Untruncated ⟨world, world.matcher, viewer⟩ compiled.text bufferLen) :
    ∃ again, Compiler.compile ⟨world, world.matcher, viewer⟩
        (Decompiler.decompile ⟨world, world.matcher, viewer⟩ compiled.text bufferLen) bufferLen =
          .ok again ∧ again.text = compiled.text := by
  have numbers := (lockParts_of_write (Compiler.write_of_untruncated compiles whole)).2
  rw [Decompiler.write_of_untruncated shownWhole]
  exact Compiler.compile_of_write viewerValid (write_shown fits numbers viewer)
    (Compiler.bytes_compile_le compiles)

def ofPlayer (name : Text) : World := ((World.new {} 0).create name .player .nothing .nothing).2

theorem compile_decompile_ofPlayer :
    ∃ again, Compiler.compile ⟨ofPlayer ['p'], (ofPlayer ['p']).matcher, .system⟩
        (Decompiler.decompile ⟨ofPlayer ['p'], (ofPlayer ['p']).matcher, .system⟩
          "!#0&sex:m*".toList 16) 16 = .ok again ∧ again.text = "!#0&sex:m*".toList := by
  have compiles : Compiler.compile ⟨ofPlayer ['p'], (ofPlayer ['p']).matcher, .system⟩
      "!ME&sex:m*".toList 16 = .ok ⟨"!#0&sex:m*".toList, []⟩ := rfl
  exact compile_decompile (by decide) (by decide) compiles
    (Compiler.untruncated_of_slack compiles (by decide +kernel))
    (Decompiler.untruncated_of_slack (by decide +kernel))

/-- Two bytes to spare are not enough: the cut falls before a longer character, and what is left of
the last word is not looked up. -/
theorem not_compile_decompile_of_two_spare :
    ¬ ∀ (world : World) (actor viewer : Dbref) (text : Text) (bufferLen : Nat)
        (compiled : CompiledLock), world.isValid actor → world.isValid viewer →
      Compiler.compile ⟨world, world.matcher, actor⟩ text bufferLen = .ok compiled →
      Text.bytes text + 2 ≤ bufferLen → Text.bytes compiled.text + 2 ≤ bufferLen →
      Text.bytes (Decompiler.decompile ⟨world, world.matcher, viewer⟩ compiled.text bufferLen) + 2 ≤
        bufferLen →
      ∃ again, Compiler.compile ⟨world, world.matcher, viewer⟩
        (Decompiler.decompile ⟨world, world.matcher, viewer⟩ compiled.text bufferLen) bufferLen =
          .ok again ∧ again.text = compiled.text := by
  intro claim
  have shown : Decompiler.decompile ⟨ofPlayer ['p'], (ofPlayer ['p']).matcher, .system⟩
      "#0|#0|#0|#0|a".toList 15 = "p|p|p|p|a".toList := by decide +kernel
  obtain ⟨again, compiles, -⟩ := claim (ofPlayer ['p']) .system .system "p|p|p|p|aé[]".toList 15
    ⟨"#0|#0|#0|#0|a".toList, []⟩ (by decide) (by decide) rfl (by decide +kernel)
    (by decide +kernel) (by decide +kernel)
  have refused : Compiler.compile ⟨ofPlayer ['p'], (ofPlayer ['p']).matcher, .system⟩
      "p|p|p|p|a".toList 15 = .error (.noMatch ['a']) := rfl
  rw [shown, refused] at compiles
  cases compiles

end World
end WorldLocks
