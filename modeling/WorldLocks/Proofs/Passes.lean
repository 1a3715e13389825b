import WorldLocks.Lock.Pass
import WorldLocks.Proofs.Parts.Writing
import WorldLocks.Proofs.Places

/-! Passes over a lock get on.  One pass reads one item, and an item takes at least one character,
so that there are no more passes than characters.  What they write is what is written for the items
of the lock. -/

set_option autoImplicit false

namespace WorldLocks

open Cursor Place

variable {before ahead : Text}

theorem Text.roomAfter_append (room : Nat) (first second : Text) :
    roomAfter room (first ++ second) = roomAfter (roomAfter room first) second := by
  rw [roomAfter, bytes_append, Nat.sub_add_eq]
  rfl

/-! ## Items one behind the other -/

theorem Subject.read_split (ahead : Text) :
    (Subject.read ahead).1.pieces.flatten ++ (Subject.read ahead).2 = ahead := by
  have split (ahead : Text) : (Cursor.word ahead).1.text ++ (Cursor.word ahead).2 = ahead :=
    wordFrom_split false ahead
  have first := split ahead
  unfold Subject.read
  generalize Cursor.word ahead = read at first ⊢
  obtain ⟨object, behind⟩ := read
  dsimp only at first ⊢
  split
  · next later => simp [Subject.pieces, split, ← first]
  · next later =>
    have second := split later
    generalize Cursor.word later = read at second ⊢
    obtain ⟨name, rest⟩ := read
    dsimp only at second ⊢
    cases eats : eat? ':' rest with
    | none => simp [Subject.pieces, ← first, ← second]
    | some rest =>
        obtain rfl := eat?_eq_some.mp eats
        simp [Subject.pieces, split, ← first, ← second]
  · simp [Subject.pieces, first]

namespace LockItem

def text (item : LockItem) : Text := item.left ++ item.subject.pieces.flatten ++ item.right

theorem readAll_of_enough {bound more : Nat} (enough : ahead.length ≤ bound)
    (alsoEnough : ahead.length ≤ more) : readAll bound ahead = readAll more ahead := by
  induction bound generalizing more ahead with
  | zero =>
      obtain rfl := List.eq_nil_of_length_eq_zero (Nat.le_zero.mp enough)
      cases more <;> rfl
  | succ bound ih =>
      cases ahead with
      | nil => cases more <;> rfl
      | cons c rest =>
          cases more with
          | zero => cases alsoEnough
          | succ more =>
              have shorter := Phase.length_item (List.cons_ne_nil c rest)
              have fits : (read (c :: rest)).2.length ≤ bound := by omega
              have alsoFits : (read (c :: rest)).2.length ≤ more := by omega
              exact congrArg ((read (c :: rest)).1 :: ·) (ih fits alsoFits)

theorem read_split (ahead : Text) : (read ahead).1.text ++ (read ahead).2 = ahead := by
  have left := (run_spec isLeftMark ahead).1
  have subject := Subject.read_split (run isLeftMark ahead).2
  have right := (run_spec isRightMark (Subject.read (run isLeftMark ahead).2).2).1
  calc (read ahead).1.text ++ (read ahead).2
    _ = (run isLeftMark ahead).1 ++ ((Subject.read (run isLeftMark ahead).2).1.pieces.flatten ++
          ((run isRightMark (Subject.read (run isLeftMark ahead).2).2).1 ++
            (run isRightMark (Subject.read (run isLeftMark ahead).2).2).2)) := by
        simp [LockItem.text, read, Cursor.leftMarks, Cursor.rightMarks]
    _ = ahead := by rw [right, subject, left]

/-- The first item of a lock is read from it, and the others from what is behind that. -/
theorem ofText_eq_cons (present : ahead ≠ []) :
    ofText ahead = (read ahead).1 :: ofText (read ahead).2 := by
  have shorter := Phase.length_item present
  cases ahead with
  | nil => exact absurd rfl present
  | cons c rest =>
      exact congrArg ((read (c :: rest)).1 :: ·)
        (readAll_of_enough (Nat.le_of_lt_succ shorter) (Nat.le_refl _))

end LockItem

/-! ## Single passes -/

namespace Place

theorem subject_between (before ahead : Text) :
    (between before ahead).subject =
      some ((Subject.read ahead).1,
        between (before ++ (Subject.read ahead).1.pieces.flatten) (Subject.read ahead).2) := by
  unfold Place.subject Subject.read
  simp only [word_between, Option.bind_eq_bind, Option.bind_some, peek_between]
  generalize Cursor.word ahead = first
  obtain ⟨first, behind⟩ := first
  cases behind with
  | nil => simp [Subject.pieces]
  | cons c later =>
      by_cases colon : c = ':'
      · subst colon
        simp [bump_cons, word_between, Subject.pieces]
      · by_cases dot : c = '.'
        · subst dot
          simp only [List.head?_cons, bump_cons, word_between, Option.bind_some]
          generalize Cursor.word later = name
          obtain ⟨name, later⟩ := name
          cases eats : eat? ':' later with
          | none => simp [eat_none eats, Subject.pieces]
          | some behind =>
              obtain rfl := eat?_eq_some.mp eats
              simp [eat_cons, word_between, Subject.pieces]
        · simp [Subject.pieces, colon, dot]

/-- A place between texts that is behind more than another one. -/
def Beyond (before ahead : Text) (next : Place) : Prop :=
  ∃ passed behind, passed ≠ [] ∧ passed ++ behind = ahead ∧
    next = between (before ++ passed) behind

/-- Where a pass over one item ends. -/
def behindItem (before ahead : Text) : Place :=
  between (before ++ (LockItem.read ahead).1.text) (LockItem.read ahead).2

theorem behindItem_eq (before ahead : Text) :
    between (before ++ (run isLeftMark ahead).1 ++
        (Subject.read (run isLeftMark ahead).2).1.pieces.flatten ++
          (run isRightMark (Subject.read (run isLeftMark ahead).2).2).1)
      (run isRightMark (Subject.read (run isLeftMark ahead).2).2).2 = behindItem before ahead := by
  simp [behindItem, LockItem.text, LockItem.read, Cursor.leftMarks, Cursor.rightMarks]

theorem beyond_behindItem (present : ahead ≠ []) :
    Beyond before ahead (behindItem before ahead) := by
  refine ⟨_, _, ?_, LockItem.read_split ahead, rfl⟩
  intro nothing
  have shorter := Phase.length_item present
  have split := LockItem.read_split ahead
  rw [nothing, List.nil_append] at split
  rw [split] at shorter
  exact Nat.lt_irrefl _ shorter

end Place

namespace Compiler

variable (compiler : Compiler)

theorem pass_between (room : Nat) (before ahead : Text) :
    compiler.pass room (between before ahead) =
      let item := (LockItem.read ahead).1
      let left := Text.takeBytes room item.left
      if Text.roomAfter room left = 0 then some (.ok (⟨left, []⟩, none))
      else match compiler.subject item.subject with
        | .error failure => some (.error failure)
        | .ok compiled =>
          some (.ok (⟨left ++ Text.fit (Text.roomAfter room left) (compiled.pieces ++ [item.right]),
            compiled.warnings⟩, some (behindItem before ahead))) := by
  unfold Compiler.pass
  simp only [Place.leftMarks, takeWhile_between, Option.bind_eq_bind, Option.bind_some,
    subject_between, Place.rightMarks, behindItem_eq]
  rfl

/-- A pass gets on, unless it fails or fills the room. -/
theorem pass_cases (room : Nat) (present : ahead ≠ []) (before : Text) :
    (∃ failure, compiler.pass room (between before ahead) = some (.error failure)) ∨
      (∃ written, compiler.pass room (between before ahead) = some (.ok (written, none))) ∨
        ∃ written next,
          compiler.pass room (between before ahead) = some (.ok (written, some next)) ∧
            Beyond before ahead next := by
  rw [pass_between]
  dsimp only
  split
  · exact .inr (.inl ⟨_, rfl⟩)
  · split
    · next failure _ => exact .inl ⟨failure, rfl⟩
    · exact .inr (.inr ⟨_, _, rfl, beyond_behindItem present⟩)

/-- The passes come to an end, and write what is written for the items ahead. -/
theorem passes_between {bound : Nat} (enough : ahead.length < bound) (room : Nat) (before : Text) :
    compiler.passes bound room (between before ahead) =
      some (compiler.items room (LockItem.ofText ahead)) := by
  induction bound generalizing room before ahead with
  | zero => cases enough
  | succ bound ih =>
      by_cases present : ahead = []
      · subst present
        rw [passes]
        simp [atEnd_between, LockItem.ofText, LockItem.readAll, Compiler.items]
      · have shorter := Phase.length_item present
        have later (room : Nat) : compiler.passes bound room (behindItem before ahead) =
            some (compiler.items room (LockItem.ofText (LockItem.read ahead).2)) :=
          ih (Nat.lt_of_lt_of_le shorter (Nat.le_of_lt_succ enough)) room _
        have more : ¬ (between before ahead).atEnd = true := by simp [atEnd_between, present]
        rw [LockItem.ofText_eq_cons present, passes, Compiler.items]
        by_cases full : room = 0
        · have nothing : Text.takeBytes 0 (LockItem.read ahead).1.left = [] :=
            Text.eq_nil_of_bytes (Nat.le_zero.mp (Text.bytes_takeBytes_le 0 _))
          simp [full, nothing, Text.roomAfter]
        · rw [if_neg (not_or_intro more full), pass_between]
          by_cases cut : Text.roomAfter room (Text.takeBytes room (LockItem.read ahead).1.left) = 0
          · simp [cut]
          · cases compiled : compiler.subject (LockItem.read ahead).1.subject with
            | error failure => simp [cut, compiled, bind, Except.bind]
            | ok compiled =>
                simp only [if_neg cut, compiled, later, Text.roomAfter_append, bind, Except.bind,
                  Option.bind]
                split <;> simp [*]

end Compiler

namespace Decompiler

variable (decompiler : Decompiler)

theorem pass_between (room : Nat) (before ahead : Text) :
    decompiler.pass room (between before ahead) =
      let item := (LockItem.read ahead).1
      some (Text.fit room (item.left :: decompiler.subject item.subject ++ [item.right]),
        behindItem before ahead) := by
  unfold Decompiler.pass
  simp only [Place.leftMarks, takeWhile_between, Option.bind_eq_bind, Option.bind_some,
    subject_between, Place.rightMarks, behindItem_eq]
  rfl

/-- The passes come to an end, and write what is written for the items ahead. -/
theorem passes_between {bound : Nat} (enough : ahead.length < bound) (room : Nat) (before : Text) :
    decompiler.passes bound room (between before ahead) =
      some (decompiler.items room (LockItem.ofText ahead)) := by
  induction bound generalizing room before ahead with
  | zero => cases enough
  | succ bound ih =>
      by_cases present : ahead = []
      · subst present
        rw [passes]
        simp [atEnd_between, LockItem.ofText, LockItem.readAll, Decompiler.items]
      · have shorter := Phase.length_item present
        have later (room : Nat) : decompiler.passes bound room (behindItem before ahead) =
            some (decompiler.items room (LockItem.ofText (LockItem.read ahead).2)) :=
          ih (Nat.lt_of_lt_of_le shorter (Nat.le_of_lt_succ enough)) room _
        rw [LockItem.ofText_eq_cons present, passes, Decompiler.items]
        by_cases full : room = 0
        · simp [full]
        · simp [atEnd_between, full, present, pass_between, later]

theorem pass_onward (room : Nat) (present : ahead ≠ []) (before : Text) :
    ∃ written next, decompiler.pass room (between before ahead) = some (written, next) ∧
      Beyond before ahead next :=
  ⟨_, _, decompiler.pass_between room before ahead, beyond_behindItem present⟩

end Decompiler

/-! ## Cursors over a text -/

/-- A cursor never loses its place.  Every sequence of calls has answers, no cut being made behind
the end of the text or inside of a character, and no call goes back; between them they pass over the
text piece by piece, each over what it answers with or is there to skip, and they answer as they do
for what is ahead.  A pass of the compiler or the decompiler over what is not yet at an end fails,
fills the room or gets on by at least one character.  So the passes over a text come to an end, not
more of them than there are characters, and write what is written for its items. -/
theorem Place.never_lost (text : Text) :
    (∀ calls : List Call, ∃ steps, (start text).callAll calls = some steps ∧
      Runs [] text calls steps ∧
      (∀ step ∈ steps, step.2.text = text ∧ step.2.offset ≤ text.bytes ∧ step.2.rest.isSome) ∧
      (steps.map fun step => step.2.offset).Pairwise (· ≤ ·) ∧
      steps.map (fun (answer, place) => (answer, place.rest)) =
        (Cursor.callAll text calls).map fun (answer, behind) => (answer, some behind)) ∧
    (∀ (compiler : Compiler) (room : Nat) (before : Text) (c : Char) (rest : Text),
      (∃ failure, compiler.pass room (between before (c :: rest)) = some (.error failure)) ∨
        (∃ written, compiler.pass room (between before (c :: rest)) = some (.ok (written, none))) ∨
          ∃ written next,
            compiler.pass room (between before (c :: rest)) = some (.ok (written, some next)) ∧
              Beyond before (c :: rest) next) ∧
    (∀ (decompiler : Decompiler) (room : Nat) (before : Text) (c : Char) (rest : Text),
      ∃ written next, decompiler.pass room (between before (c :: rest)) = some (written, next) ∧
        Beyond before (c :: rest) next) ∧
    (∀ (compiler : Compiler) (room : Nat),
      compiler.passes (text.length + 1) room (start text) =
        some (compiler.items room (LockItem.ofText text))) ∧
    (∀ (decompiler : Decompiler) (room : Nat),
      decompiler.passes (text.length + 1) room (start text) =
        some (decompiler.items room (LockItem.ofText text))) := by
  refine ⟨fun calls => ?_,
    fun compiler room before c rest => compiler.pass_cases room (List.cons_ne_nil c rest) before,
    fun decompiler room before c rest =>
      decompiler.pass_onward room (List.cons_ne_nil c rest) before,
    fun compiler room => compiler.passes_between (Nat.lt_succ_self _) room [],
    fun decompiler room => decompiler.passes_between (Nat.lt_succ_self _) room []⟩
  obtain ⟨steps, called, runs, same⟩ := callAll_between [] text calls
  refine ⟨steps, called, runs, ?_, runs.monotone, same⟩
  intro step member
  obtain ⟨passed, behind, rfl, placed⟩ := runs.onward step member
  rw [placed, List.nil_append, rest_between]
  exact ⟨rfl, by simp [between], rfl⟩

/-- Characters of more than one byte, and a `[` that is not closed. -/
def Place.unclosed : Text := "é.x:ü&[1|".toList

theorem Place.never_lost_unclosed :
    ∃ steps, (start unclosed).callAll [.eat 'e', .attrTest, .bump, .word, .bump] = some steps ∧
      (.word ⟨"[1|".toList⟩, ⟨unclosed, 11⟩) ∈ steps ∧ 11 ≤ unclosed.bytes ∧
      (Place.mk unclosed 11).rest.isSome := by
  obtain ⟨steps, called, -, within, -⟩ :=
    (never_lost unclosed).1 [.eat 'e', .attrTest, .bump, .word, .bump]
  have answers : (start unclosed).callAll [.eat 'e', .attrTest, .bump, .word, .bump] =
      some [(.bool false, ⟨unclosed, 0⟩),
        (.attrTest (some ("é.x".toList, "ü".toList)), ⟨unclosed, 7⟩),
        (.char '&', ⟨unclosed, 8⟩), (.word ⟨"[1|".toList⟩, ⟨unclosed, 11⟩),
        (.char none, ⟨unclosed, 11⟩)] := by decide +kernel
  have member : (.word ⟨"[1|".toList⟩, ⟨unclosed, 11⟩) ∈ steps := by
    rw [← Option.some.inj (answers.symm.trans called)]
    simp
  exact ⟨steps, called, member, (within _ member).2⟩

end WorldLocks
