import WorldLocks.Lock.Compile
import WorldLocks.Lock.Decompile
import WorldLocks.Proofs.Parts.Basic
import WorldLocks.Proofs.Results

/-! Compiling and decompiling as rewriting parts.  As long as nothing is cut off, the compiler
writes the number of every named object and the decompiler the name of every number, and both copy
all other parts.  No character takes more than four bytes, so a text that leaves that much room was
not cut. -/

set_option autoImplicit false

namespace WorldLocks

open LockPart

/-! ## Room to spare -/

namespace Text

theorem takeBytes_of_slack {room : Nat} {text : Text}
    (slack : bytes (takeBytes room text) + 4 ≤ room) : takeBytes room text = text := by
  induction text generalizing room with
  | nil => rfl
  | cons c rest ih =>
      have small := c.utf8Size_le_four
      by_cases fits : c.utf8Size ≤ room
      · simp only [takeBytes, fits, if_true, bytes_cons] at slack ⊢
        rw [ih (by omega)]
      · simp only [takeBytes, fits, if_false, bytes_nil] at slack
        omega

theorem eq_nil_of_bytes {text : Text} (nothing : bytes text = 0) : text = [] := by
  cases text with
  | nil => rfl
  | cons c rest =>
      have size := c.utf8Size_pos
      simp only [bytes_cons] at nothing
      omega

theorem fit_of_slack {room : Nat} {pieces : List Text}
    (slack : bytes (fit room pieces) + 4 ≤ room) : fit room pieces = pieces.flatten := by
  induction pieces generalizing room with
  | nil => rfl
  | cons piece later ih =>
      simp only [fit, bytes_append] at slack
      have first : takeBytes room piece = piece := takeBytes_of_slack (by omega)
      rw [first] at slack
      simp only [fit, first, List.flatten_cons]
      rw [ih (by omega)]

@[simp] theorem fit_zero (pieces : List Text) : fit 0 pieces = [] :=
  eq_nil_of_bytes (Nat.le_zero.mp (bytes_fit_le 0 pieces))

theorem fit_append (room : Nat) (first second : List Text) :
    fit room (first ++ second) =
      fit room first ++ fit (room - bytes (fit room first)) second := by
  induction first generalizing room with
  | nil => rfl
  | cons piece first ih =>
      rw [List.cons_append, fit, fit, ih, bytes_append, Nat.sub_sub, List.append_assoc]

end Text

open Text

/-! ## Compiling -/

namespace Compiler

def part (compiler : Compiler) : LockPart → Except CompileError Text
  | .copied c => .ok [c]
  | .object word => (compiler.objectOf ⟨word⟩).map Dbref.literal
  | .noPattern => .error .missingColon

def write (compiler : Compiler) : List LockPart → Except CompileError Text
  | [] => .ok []
  | part :: later => do
    let first ← compiler.part part
    let rest ← compiler.write later
    .ok (first ++ rest)

variable {compiler : Compiler}

theorem write_cons_eq_ok {part : LockPart} {parts : List LockPart} {text : Text} :
    compiler.write (part :: parts) = .ok text ↔
      ∃ first rest, compiler.part part = .ok first ∧ compiler.write parts = .ok rest ∧
        text = first ++ rest := by
  simp only [write, bind_eq_ok, Except.ok.injEq]
  grind

theorem write_append_eq_ok {first second : List LockPart} {text : Text} :
    compiler.write (first ++ second) = .ok text ↔
      ∃ before behind, compiler.write first = .ok before ∧ compiler.write second = .ok behind ∧
        text = before ++ behind := by
  induction first generalizing text with
  | nil => simp [write]
  | cons part first ih =>
      simp only [List.cons_append, write_cons_eq_ok, ih]
      constructor
      · rintro ⟨head, rest, here, ⟨before, behind, later, written, rfl⟩, rfl⟩
        exact ⟨head ++ before, behind, ⟨head, before, here, later, rfl⟩, written, by simp⟩
      · rintro ⟨before, behind, ⟨head, rest, here, later, rfl⟩, written, rfl⟩
        exact ⟨head, rest ++ behind, here, ⟨rest, behind, later, written, rfl⟩, by simp⟩

theorem write_copy_append (text : Text) (parts : List LockPart) :
    compiler.write (copy text ++ parts) = (compiler.write parts).map (text ++ ·) := by
  induction text with
  | nil =>
      simp only [copy_nil, List.nil_append]
      cases compiler.write parts <;> rfl
  | cons c rest ih =>
      simp only [copy_cons, List.cons_append, write, ih]
      cases compiler.write parts <;> rfl

@[simp] theorem write_copy (text : Text) : compiler.write (copy text) = .ok text := by
  have whole : compiler.write (copy text ++ []) = _ := write_copy_append text []
  simpa [write, Except.map] using whole

/-- The number that a word stands for, if it means an object. -/
def numberOf (compiler : Compiler) (word : Text) : Text :=
  match compiler.objectOf ⟨word⟩ with
  | .ok target => target.literal
  | .error _ => []

/-- Parts are compiled if every word means an object and every pattern is there; then numbers
replace the words. -/
theorem write_eq_ok {parts : List LockPart} {text : Text} :
    compiler.write parts = .ok text ↔
      (noPattern ∉ parts ∧
        ∀ word, object word ∈ parts → ∃ target, compiler.objectOf ⟨word⟩ = .ok target) ∧
      text = textOf (parts.map (rename compiler.numberOf)) := by
  induction parts generalizing text with
  | nil => simp [write, eq_comm]
  | cons part parts ih =>
      rw [write_cons_eq_ok]
      constructor
      · rintro ⟨first, rest, here, later, rfl⟩
        obtain ⟨⟨patterns, objects⟩, rfl⟩ := ih.mp later
        cases part with
        | copied c =>
            obtain rfl := Except.ok.inj here
            exact ⟨⟨by simpa using patterns, by simpa using objects⟩, rfl⟩
        | object word =>
            obtain ⟨target, found, rfl⟩ := map_eq_ok.mp here
            refine ⟨⟨by simpa using patterns, fun other member => ?_⟩, ?_⟩
            · rcases List.mem_cons.mp member with same | member
              · obtain rfl := LockPart.object.inj same
                exact ⟨target, found⟩
              · exact objects other member
            · simp [rename, LockPart.text, numberOf, found]
        | noPattern => cases here
      · rintro ⟨⟨patterns, objects⟩, rfl⟩
        have later := ih.mpr ⟨⟨fun member => patterns (by simp [member]),
          fun word member => objects word (by simp [member])⟩, rfl⟩
        cases part with
        | copied c => exact ⟨[c], _, rfl, later, rfl⟩
        | object word =>
            obtain ⟨target, found⟩ := objects word (by simp)
            refine ⟨target.literal, _, by simp [part, found, Except.map], later, ?_⟩
            simp [rename, LockPart.text, numberOf, found]
        | noPattern => exact absurd (by simp) patterns

theorem write_subject (subject : Subject) :
    compiler.write subject.parts = (compiler.subject subject).map (·.pieces.flatten) := by
  cases subject with
  | test name pattern =>
      rw [Subject.parts, write_copy]
      simp [Compiler.subject, Subject.pieces, Except.map]
  | dotted target name pattern =>
      cases found : compiler.objectOf target with
      | error error =>
          cases pattern <;>
            simp [Subject.parts, Compiler.subject, write, part, found, bind, Except.bind, Except.map]
      | ok object =>
          cases pattern with
          | none =>
              simp [Subject.parts, Compiler.subject, write, part, found, bind, Except.bind, Except.map,
                write_copy_append]
          | some pattern =>
              simp [Subject.parts, Compiler.subject, write, part, found, bind, Except.bind, Except.map,
                write_copy_append]
  | plain word =>
      cases call : word.isCall with
      | true =>
          have bracket : '[' ∈ word.text := by simpa [Cursor.Word.isCall] using call
          simp [Subject.parts, Compiler.subject, alone, call, bracket, Except.map]
      | false =>
          have noBracket : '[' ∉ word.text := by simpa [Cursor.Word.isCall] using call
          cases found : compiler.objectOf word <;>
            simp [Subject.parts, Compiler.subject, alone, call, noBracket, write, part, found, bind,
              Except.bind, Except.map]

theorem write_item {item : LockItem} {compiled : CompiledSubject}
    (subjectDone : compiler.subject item.subject = .ok compiled) :
    compiler.write item.parts = .ok (item.left ++ compiled.pieces.flatten ++ item.right) := by
  have subjectWritten : compiler.write item.subject.parts = .ok compiled.pieces.flatten := by
    rw [write_subject, subjectDone]
    rfl
  have front : compiler.write (copy item.left ++ item.subject.parts) =
      .ok (item.left ++ compiled.pieces.flatten) :=
    write_append_eq_ok.mpr ⟨_, _, write_copy _, subjectWritten, rfl⟩
  exact write_append_eq_ok.mpr ⟨_, _, front, write_copy _, rfl⟩

/-- The pieces of compiled items, up to the first word that is refused.  They do not depend on the
room: what would be behind a full buffer leaves no trace in it. -/
def pushes (compiler : Compiler) : List LockItem → List Text
  | [] => []
  | item :: later =>
    item.left :: match compiler.subject item.subject with
      | .ok compiled => compiled.pieces ++ item.right :: compiler.pushes later
      | .error _ => []

theorem text_of_items {room : Nat} {items : List LockItem} {compiled : CompiledLock}
    (compiles : compiler.items room items = .ok compiled) :
    compiled.text = fit room (compiler.pushes items) := by
  induction items generalizing room compiled with
  | nil =>
      obtain rfl := Except.ok.inj compiles
      rfl
  | cons item later ih =>
      rw [pushes, fit]
      simp only [Compiler.items] at compiles
      split at compiles
      · next full =>
        obtain rfl := Except.ok.inj compiles
        rw [roomAfter] at full
        rw [full, fit_zero, List.append_nil]
      · obtain ⟨subject, subjectDone, compiles⟩ := bind_eq_ok.mp compiles
        obtain ⟨rest, restDone, compiles⟩ := bind_eq_ok.mp compiles
        obtain rfl := Except.ok.inj compiles
        have grouped : subject.pieces ++ item.right :: compiler.pushes later =
            (subject.pieces ++ [item.right]) ++ compiler.pushes later := List.append_cons ..
        rw [subjectDone, ih restDone, List.append_assoc]
        dsimp only
        rw [grouped, fit_append _ (subject.pieces ++ [item.right])]
        rfl

/-- Every word of a lock is looked up if the whole leaves room for one more byte. -/
theorem write_of_pushes {room : Nat} {items : List LockItem} {compiled : CompiledLock}
    (compiles : compiler.items room items = .ok compiled)
    (spare : bytes (compiler.pushes items).flatten < room) :
    compiler.write (items.flatMap LockItem.parts) = .ok (compiler.pushes items).flatten := by
  induction items generalizing room compiled with
  | nil => rfl
  | cons item later ih =>
      simp only [pushes, List.flatten_cons, bytes_append] at spare
      have left : takeBytes room item.left = item.left := takeBytes_of_bytes_le (by omega)
      simp only [Compiler.items, left, roomAfter] at compiles
      split at compiles
      · omega
      · obtain ⟨subject, subjectDone, compiles⟩ := bind_eq_ok.mp compiles
        obtain ⟨rest, restDone, -⟩ := bind_eq_ok.mp compiles
        rw [subjectDone] at spare
        simp only [List.flatten_append, List.flatten_cons, bytes_append] at spare
        have written : fit (room - bytes item.left) (subject.pieces ++ [item.right]) = _ :=
          fit_of_bytes_le (by simp; omega)
        simp only [written, List.flatten_append, List.flatten_cons, List.flatten_nil,
          List.append_nil, bytes_append] at restDone
        refine write_append_eq_ok.mpr ⟨_, _, write_item subjectDone, ih restDone (by omega), ?_⟩
        simp [pushes, subjectDone]

theorem write_of_items {room : Nat} {items : List LockItem} {compiled : CompiledLock}
    (compiles : compiler.items room items = .ok compiled)
    (slack : bytes compiled.text + 4 ≤ room) :
    compiler.write (items.flatMap LockItem.parts) = .ok compiled.text := by
  have text := text_of_items compiles
  have whole : fit room (compiler.pushes items) = (compiler.pushes items).flatten :=
    fit_of_slack (by rwa [← text])
  rw [whole] at text
  rw [text] at slack ⊢
  exact write_of_pushes compiles (by omega)

theorem items_of_write {room : Nat} {items : List LockItem} {text : Text}
    (written : compiler.write (items.flatMap LockItem.parts) = .ok text)
    (fits : bytes text ≤ room) :
    ∃ compiled, compiler.items room items = .ok compiled ∧ compiled.text = text := by
  induction items generalizing room text with
  | nil =>
      obtain rfl := Except.ok.inj written
      exact ⟨_, rfl, rfl⟩
  | cons item later ih =>
      obtain ⟨itemText, rest, itemWritten, laterWritten, rfl⟩ := write_append_eq_ok.mp written
      obtain ⟨front, right, frontWritten, rightWritten, rfl⟩ := write_append_eq_ok.mp itemWritten
      obtain ⟨left, middle, leftWritten, subjectWritten, rfl⟩ := write_append_eq_ok.mp frontWritten
      obtain rfl := Except.ok.inj ((write_copy item.left).symm.trans leftWritten)
      obtain rfl := Except.ok.inj ((write_copy item.right).symm.trans rightWritten)
      rw [write_subject] at subjectWritten
      obtain ⟨subject, subjectDone, rfl⟩ := map_eq_ok.mp subjectWritten
      simp only [bytes_append] at fits
      have left : takeBytes room item.left = item.left := takeBytes_of_bytes_le (by omega)
      have whole : fit (room - bytes item.left) (subject.pieces ++ [item.right]) =
          subject.pieces.flatten ++ item.right := by
        rw [fit_of_bytes_le] <;> simp
        omega
      have laterFits :
          bytes rest ≤ room - bytes item.left - bytes (subject.pieces.flatten ++ item.right) := by
        simp only [bytes_append]
        omega
      obtain ⟨compiled, compiles, rfl⟩ := ih laterWritten laterFits
      simp only [Compiler.items, left, roomAfter]
      split
      · next full =>
        -- The left marks fill the room, so nothing is left to be written.
        have nothing : subject.pieces.flatten ++ item.right ++ compiled.text = [] :=
          eq_nil_of_bytes (by simp only [bytes_append]; omega)
        exact ⟨_, rfl, by simpa [List.append_assoc] using nothing⟩
      · rw [subjectDone]
        simp only [bind, Except.bind, whole, compiles]
        exact ⟨_, rfl, by simp⟩

/-- A compiled text that leaves room for one more character is the whole lock, compiled. -/
theorem write_of_compile {text : Text} {bufferLen : Nat} {compiled : CompiledLock}
    (compiles : compiler.compile text bufferLen = .ok compiled)
    (slack : bytes compiled.text + 5 ≤ bufferLen) :
    compiler.write (lockParts text) = .ok compiled.text := by
  unfold compile at compiles
  split at compiles
  · exact write_of_items compiles (by omega)
  · cases compiles

theorem isValid_of_compile {text : Text} {bufferLen : Nat} {compiled : CompiledLock}
    (compiles : compiler.compile text bufferLen = .ok compiled) :
    compiler.world.isValid compiler.actor := by
  unfold compile at compiles
  split at compiles
  · assumption
  · cases compiles

theorem compile_of_write {text written : Text} {bufferLen : Nat}
    (actor : compiler.world.isValid compiler.actor)
    (writes : compiler.write (lockParts text) = .ok written) (fits : bytes written ≤ bufferLen - 1) :
    ∃ compiled, compiler.compile text bufferLen = .ok compiled ∧ compiled.text = written := by
  rw [compile, if_pos actor]
  exact items_of_write writes fits

theorem text_of_compile {text : Text} {bufferLen : Nat} {compiled : CompiledLock}
    (compiles : compiler.compile text bufferLen = .ok compiled) :
    compiled.text = fit (bufferLen - 1) (compiler.pushes (LockItem.ofText text)) := by
  unfold compile at compiles
  split at compiles
  · exact text_of_items compiles
  · cases compiles

theorem bytes_compile_le {text : Text} {bufferLen : Nat} {compiled : CompiledLock}
    (compiles : compiler.compile text bufferLen = .ok compiled) :
    bytes compiled.text ≤ bufferLen - 1 := by
  rw [text_of_compile compiles]
  exact bytes_fit_le ..

/-- Whether nothing is cut off: with a longer buffer the compiled text would be the same. -/
def Untruncated (compiler : Compiler) (text : Text) (bufferLen : Nat) : Prop :=
  ∀ longer, bufferLen ≤ longer →
    (compiler.compile text longer).map CompiledLock.text =
      (compiler.compile text bufferLen).map CompiledLock.text

theorem write_of_untruncated {text : Text} {bufferLen : Nat} {compiled : CompiledLock}
    (compiles : compiler.compile text bufferLen = .ok compiled)
    (untruncated : compiler.Untruncated text bufferLen) :
    compiler.write (lockParts text) = .ok compiled.text := by
  have same := untruncated (max bufferLen (bytes compiled.text + 5)) (Nat.le_max_left ..)
  rw [compiles] at same
  obtain ⟨roomy, roomyCompiles, roomyText⟩ := map_eq_ok.mp same
  rw [← roomyText]
  exact write_of_compile roomyCompiles (roomyText ▸ Nat.le_max_right ..)

/-- A word that is looked up is replaced by its number. -/
theorem exists_of_object {text word : Text} {before after : List LockPart} {bufferLen : Nat}
    {compiled : CompiledLock} (compiles : compiler.compile text bufferLen = .ok compiled)
    (untruncated : compiler.Untruncated text bufferLen)
    (parts : lockParts text = before ++ object word :: after) :
    ∃ first target last, compiler.write before = .ok first ∧
      compiler.objectOf ⟨word⟩ = .ok target ∧ compiler.write after = .ok last ∧
        compiled.text = first ++ (target.literal ++ last) := by
  have written := write_of_untruncated compiles untruncated
  rw [parts] at written
  obtain ⟨first, rest, firstWritten, restWritten, wholeText⟩ := write_append_eq_ok.mp written
  obtain ⟨number, last, wordWritten, lastWritten, rfl⟩ := write_cons_eq_ok.mp restWritten
  obtain ⟨target, found, rfl⟩ := map_eq_ok.mp wordWritten
  exact ⟨first, target, last, firstWritten, found, lastWritten, wholeText⟩

theorem untruncated_of_slack {text : Text} {bufferLen : Nat} {compiled : CompiledLock}
    (compiles : compiler.compile text bufferLen = .ok compiled)
    (slack : bytes compiled.text + 5 ≤ bufferLen) : compiler.Untruncated text bufferLen := by
  intro longer more
  have fits : bytes compiled.text ≤ longer - 1 := by omega
  obtain ⟨other, otherCompiles, same⟩ := compile_of_write (isValid_of_compile compiles)
    (write_of_compile compiles slack) fits
  simp [otherCompiles, compiles, same, Except.map]

end Compiler

/-! ## Decompiling -/

namespace Decompiler

def part (decompiler : Decompiler) : LockPart → Text
  | .copied c => [c]
  | .object word => decompiler.word ⟨word⟩
  | .noPattern => []

def write (decompiler : Decompiler) (parts : List LockPart) : Text :=
  parts.flatMap decompiler.part

variable {decompiler : Decompiler}

@[simp] theorem write_nil : decompiler.write [] = [] := rfl

@[simp] theorem write_cons (part : LockPart) (parts : List LockPart) :
    decompiler.write (part :: parts) = decompiler.part part ++ decompiler.write parts := rfl

@[simp] theorem write_append (first second : List LockPart) :
    decompiler.write (first ++ second) = decompiler.write first ++ decompiler.write second :=
  List.flatMap_append

@[simp] theorem write_copy (text : Text) : decompiler.write (copy text) = text := by
  induction text with
  | nil => rfl
  | cons c rest ih => simp [part, ih]

theorem write_eq_textOf (parts : List LockPart) :
    decompiler.write parts =
      textOf (parts.map (rename fun word => decompiler.word ⟨word⟩)) := by
  induction parts with
  | nil => rfl
  | cons first parts ih => cases first <;> simp [ih, part, rename, LockPart.text]

/-- Without objects nothing is shown another way. -/
theorem write_of_no_objects {parts : List LockPart}
    (noObjects : ∀ word, LockPart.object word ∉ parts) :
    decompiler.write parts = textOf parts := by
  rw [write_eq_textOf]
  refine congrArg textOf ((List.map_congr_left fun part member => ?_).trans (List.map_id _))
  cases part with
  | copied c => rfl
  | object word => exact absurd member (noObjects word)
  | noPattern => rfl

theorem write_subject (subject : Subject) :
    decompiler.write subject.parts = (decompiler.subject subject).flatten := by
  cases subject with
  | test name pattern => simp [Subject.parts, Decompiler.subject, Subject.pieces, part]
  | dotted target name pattern =>
      cases pattern <;> simp [Subject.parts, Decompiler.subject, Subject.pieces, part]
  | plain word =>
      cases call : word.isCall with
      | true =>
          have bracket : '[' ∈ word.text := by simpa [Cursor.Word.isCall] using call
          simp [Subject.parts, Decompiler.subject, alone, call, bracket]
      | false =>
          have noBracket : '[' ∉ word.text := by simpa [Cursor.Word.isCall] using call
          simp [Subject.parts, Decompiler.subject, alone, call, noBracket, part]

def pushes (decompiler : Decompiler) (items : List LockItem) : List Text :=
  items.flatMap fun item => item.left :: decompiler.subject item.subject ++ [item.right]

theorem items_eq_fit (room : Nat) (items : List LockItem) :
    decompiler.items room items = fit room (decompiler.pushes items) := by
  induction items generalizing room with
  | nil => rfl
  | cons item later ih =>
      simp only [Decompiler.items]
      split
      · next full => rw [full, fit_zero]
      · rw [pushes, List.flatMap_cons,
          fit_append _ (item.left :: decompiler.subject item.subject ++ [item.right]), ih]
        rfl

theorem flatten_pushes (items : List LockItem) :
    (decompiler.pushes items).flatten = decompiler.write (items.flatMap LockItem.parts) := by
  induction items with
  | nil => rfl
  | cons item later ih =>
      have here : (item.left :: decompiler.subject item.subject ++ [item.right]).flatten =
          decompiler.write item.parts := by simp [LockItem.parts, write_subject]
      rw [pushes, List.flatMap_cons, List.flatten_append, here, List.flatMap_cons, write_append,
        ← ih]
      rfl

theorem write_of_items {room : Nat} {items : List LockItem}
    (slack : bytes (decompiler.items room items) + 4 ≤ room) :
    decompiler.items room items = decompiler.write (items.flatMap LockItem.parts) := by
  rw [items_eq_fit] at slack ⊢
  rw [fit_of_slack slack, flatten_pushes]

theorem items_of_write {room : Nat} {items : List LockItem}
    (fits : bytes (decompiler.write (items.flatMap LockItem.parts)) ≤ room) :
    decompiler.items room items = decompiler.write (items.flatMap LockItem.parts) := by
  rw [← flatten_pushes] at fits ⊢
  rw [items_eq_fit, fit_of_bytes_le fits]

theorem write_of_decompile {text : Text} {bufferLen : Nat}
    (slack : bytes (decompiler.decompile text bufferLen) + 5 ≤ bufferLen) :
    decompiler.decompile text bufferLen = decompiler.write (lockParts text) :=
  write_of_items (by unfold decompile at slack; omega)

theorem decompile_of_write {text : Text} {bufferLen : Nat}
    (fits : bytes (decompiler.write (lockParts text)) ≤ bufferLen - 1) :
    decompiler.decompile text bufferLen = decompiler.write (lockParts text) :=
  items_of_write fits

/-- Whether nothing is cut off: with a longer buffer the shown text would be the same. -/
def Untruncated (decompiler : Decompiler) (text : Text) (bufferLen : Nat) : Prop :=
  ∀ longer, bufferLen ≤ longer →
    decompiler.decompile text longer = decompiler.decompile text bufferLen

theorem write_of_untruncated {text : Text} {bufferLen : Nat}
    (untruncated : decompiler.Untruncated text bufferLen) :
    decompiler.decompile text bufferLen = decompiler.write (lockParts text) := by
  have same := untruncated (max bufferLen (bytes (decompiler.decompile text bufferLen) + 5))
    (Nat.le_max_left ..)
  exact same.symm.trans (write_of_decompile (by rw [same]; exact Nat.le_max_right ..))

theorem decompile_of_object {text word : Text} {before after : List LockPart} {bufferLen : Nat}
    (untruncated : decompiler.Untruncated text bufferLen)
    (parts : lockParts text = before ++ LockPart.object word :: after) :
    decompiler.decompile text bufferLen =
      decompiler.write before ++ (decompiler.word ⟨word⟩ ++ decompiler.write after) := by
  rw [write_of_untruncated untruncated, parts, write_append, write_cons]
  rfl

theorem untruncated_of_slack {text : Text} {bufferLen : Nat}
    (slack : bytes (decompiler.decompile text bufferLen) + 5 ≤ bufferLen) :
    decompiler.Untruncated text bufferLen := by
  intro longer more
  have whole := write_of_decompile slack
  rw [whole] at slack ⊢
  exact decompile_of_write (by omega)

end Decompiler
end WorldLocks
