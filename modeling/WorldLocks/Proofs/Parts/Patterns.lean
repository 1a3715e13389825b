import WorldLocks.Proofs.Parts.Writing

/-! Patterns in locks.  The reader of locks takes a pattern to run on through colons, dots and equals
signs, but the compiler and the decompiler cut it there, and some of the words that they get are
looked up.  A pattern is copied exactly when no word that is looked up meets it. -/

set_option autoImplicit false

namespace WorldLocks

open Cursor LockPart

/-! ## Places -/

/-- A test in a lock: the lock is what is before the test, its name, a colon, its pattern and what is
behind it, and where the name starts a test is read with this name and pattern. -/
structure TestPlace (text : Text) where
  before : Text
  name : Text
  pattern : Text
  behind : Text
  split : text = before ++ (name ++ ':' :: (pattern ++ behind))
  reads : attrTest? (name ++ ':' :: (pattern ++ behind)) = some ((name, pattern), behind)

namespace TestPlace

variable {text : Text}

/-- The lock up to the pattern. -/
def front (place : TestPlace text) : Text := place.before ++ (place.name ++ [':'])

theorem text_eq (place : TestPlace text) :
    text = place.front ++ (place.pattern ++ place.behind) := by
  simp [front, place.split]

/-- Whether every word that is looked up ends before the colon or starts behind the pattern. -/
def Uncut (place : TestPlace text) : Prop :=
  ∀ earlier word later, lockParts text = earlier ++ object word :: later →
    (textOf earlier ++ word).length < place.front.length ∨
      (place.front ++ place.pattern).length < (textOf earlier).length

/-- Whether a text ends in a colon, behind which a test is read to have a pattern. -/
def ReadsBack (front pattern behind : Text) : Prop :=
  front.getLast? = some ':' ∧
    run (fun c => !endsPattern c) (pattern ++ behind) = (pattern, behind)

/-- What compiling and decompiling make of a lock whose pattern stands between some parts: they
rewrite the parts before and behind it and put the pattern in between, where it is read back.  No
word of the pattern is looked up, so a lock is accepted as soon as the other words are. -/
structure CopiedBetween (place : TestPlace text) (before after : List LockPart) : Prop where
  front : textOf before = place.front
  behind : textOf after = place.behind
  compiled : ∀ (compiler : Compiler) (bufferLen : Nat) (whole : CompiledLock),
    compiler.compile text bufferLen = .ok whole → compiler.Untruncated text bufferLen →
    ∃ first last, compiler.write before = .ok first ∧ compiler.write after = .ok last ∧
      whole.text = first ++ (place.pattern ++ last) ∧ ReadsBack first place.pattern last
  accepted : ∀ (compiler : Compiler) (bufferLen : Nat) (first last : Text),
    compiler.world.isValid compiler.actor → noPattern ∉ lockParts text →
    compiler.write before = .ok first → compiler.write after = .ok last →
    Text.bytes (first ++ (place.pattern ++ last)) ≤ bufferLen - 1 →
    ∃ whole, compiler.compile text bufferLen = .ok whole ∧
      whole.text = first ++ (place.pattern ++ last)
  shown : ∀ (decompiler : Decompiler) (bufferLen : Nat),
    decompiler.Untruncated text bufferLen →
    decompiler.decompile text bufferLen =
        decompiler.write before ++ (place.pattern ++ decompiler.write after) ∧
      ReadsBack (decompiler.write before) place.pattern (decompiler.write after)

/-- What compiling and decompiling make of a lock in which a word that meets the pattern is looked
up: the lock is refused if the word means no object, and otherwise the word is replaced. -/
structure ReplacedBetween (place : TestPlace text) (before : List LockPart) (word : Text)
    (after : List LockPart) : Prop where
  parts : lockParts text = before ++ object word :: after
  reaches : place.front.length ≤ (textOf before ++ word).length
  starts : (textOf before).length ≤ (place.front ++ place.pattern).length
  compiled : ∀ (compiler : Compiler) (bufferLen : Nat) (whole : CompiledLock),
    compiler.compile text bufferLen = .ok whole → compiler.Untruncated text bufferLen →
    ∃ first target last, compiler.write before = .ok first ∧
      compiler.objectOf ⟨word⟩ = .ok target ∧ compiler.write after = .ok last ∧
      whole.text = first ++ (target.literal ++ last)
  shown : ∀ (decompiler : Decompiler) (bufferLen : Nat),
    decompiler.Untruncated text bufferLen →
    decompiler.decompile text bufferLen =
      decompiler.write before ++ (decompiler.word ⟨word⟩ ++ decompiler.write after)

end TestPlace

/-! ## Parts and positions -/

/-- Parts can be split at a character that no word covers. -/
theorem exists_split {parts : List LockPart} {first rest : Text} {c : Char}
    (written : textOf parts = first ++ c :: rest)
    (clear : ∀ earlier word later, parts = earlier ++ object word :: later →
      (textOf earlier ++ word).length ≤ first.length ∨ first.length < (textOf earlier).length) :
    ∃ before after, parts = before ++ copied c :: after ∧ textOf before = first ∧
      textOf after = rest := by
  induction parts generalizing first with
  | nil => simp at written
  | cons part parts ih =>
      cases part with
      | copied d =>
          cases first with
          | nil =>
              obtain ⟨rfl, after⟩ : d = c ∧ textOf parts = rest := by simpa [LockPart.text] using written
              exact ⟨[], parts, rfl, rfl, after⟩
          | cons e first =>
              obtain ⟨rfl, later⟩ : d = e ∧ textOf parts = first ++ c :: rest := by
                simpa [LockPart.text] using written
              obtain ⟨before, after, rfl, beforeText, afterText⟩ := ih later
                fun earlier word later same => by
                  have here := clear (copied d :: earlier) word later (by simp [same])
                  simp only [textOf_cons, LockPart.text, List.length_append, List.length_cons,
                    List.length_nil] at here ⊢
                  omega
              exact ⟨copied d :: before, after, rfl, by simp [LockPart.text, beforeText], afterText⟩
      | object word =>
          have short : word.length ≤ first.length := by
            have here := clear [] word parts rfl
            simp only [textOf_nil, List.nil_append, List.length_nil] at here
            omega
          obtain ⟨middle, rfl⟩ : ∃ middle, first = word ++ middle :=
            List.prefix_of_prefix_length_le ⟨_, written⟩ (List.prefix_append ..) short |>.imp
              fun _ same => same.symm
          have later : textOf parts = middle ++ c :: rest := by
            simpa [LockPart.text] using written
          obtain ⟨before, after, rfl, rfl, afterText⟩ := ih later
            fun earlier other later same => by
              have here := clear (object word :: earlier) other later (by simp [same])
              simp only [textOf_cons, LockPart.text, List.length_append] at here ⊢
              omega
          exact ⟨object word :: before, after, rfl, rfl, afterText⟩
      | noPattern =>
          obtain ⟨before, after, rfl, beforeText, afterText⟩ := ih (by simpa [LockPart.text] using written)
            fun earlier word later same => by
              have here := clear (noPattern :: earlier) word later (by simp [same])
              simpa [LockPart.text] using here
          exact ⟨noPattern :: before, after, rfl, beforeText, afterText⟩

theorem split_of_object {first middle second earlier later : List LockPart} {word : Text}
    (same : first ++ (middle ++ second) = earlier ++ object word :: later)
    (noObjects : ∀ other, object other ∉ middle) :
    (∃ rest, first = earlier ++ object word :: rest) ∨
      ∃ rest, earlier = first ++ (middle ++ rest) ∧ second = rest ++ object word :: later := by
  rcases List.append_eq_append_iff.mp same with ⟨inner, rfl, tail⟩ | ⟨inner, rfl, tail⟩
  · rcases List.append_eq_append_iff.mp tail with ⟨rest, rfl, after⟩ | ⟨rest, rfl, after⟩
    · exact .inr ⟨rest, rfl, after⟩
    · cases rest with
      | nil => exact .inr ⟨[], by simp, by simpa using after.symm⟩
      | cons part rest =>
          obtain ⟨rfl, -⟩ := List.cons.inj after
          exact absurd (by simp) (noObjects word)
  · cases inner with
    | nil => 
      rw [List.nil_append] at tail
      cases middle with
      | nil => exact .inr ⟨[], by simp, tail.symm⟩
      | cons part middle =>
          obtain ⟨rfl, -⟩ := List.cons.inj tail
          exact absurd (by simp) (noObjects word)
    | cons part inner =>
        obtain ⟨rfl, -⟩ := List.cons.inj tail
        exact .inl ⟨inner, rfl⟩

theorem eq_copy {parts : List LockPart} (noPatterns : noPattern ∉ parts)
    (noObjects : ∀ word, object word ∉ parts) : parts = copy (textOf parts) := by
  induction parts with
  | nil => rfl
  | cons part parts ih =>
      have later := ih (fun member => noPatterns (by simp [member]))
        fun word member => noObjects word (by simp [member])
      cases part with
      | copied c => simpa [LockPart.text] using later
      | object word => exact absurd (by simp) (noObjects word)
      | noPattern => exact absurd (by simp) noPatterns

namespace TestPlace

variable {text : Text} {place : TestPlace text}

/-- The parts of a lock around an uncut pattern.  The pattern itself is made of characters that are
copied, though an attribute may lack its pattern in between. -/
structure Around (place : TestPlace text) (before middle after : List LockPart) : Prop where
  parts : lockParts text = before ++ (middle ++ after)
  front : textOf before = place.front
  colon : ∃ earlier, before = earlier ++ [copied ':']
  pattern : textOf middle = place.pattern
  noObjects : ∀ word, object word ∉ middle
  behind : textOf after = place.behind
  first : (place.behind = [] ∧ after = []) ∨
    ∃ c rest later, place.behind = c :: rest ∧ after = copied c :: later

/-- The parts of a lock split at the colon before an uncut pattern. -/
theorem exists_colon_split (uncut : place.Uncut) :
    ∃ earlier rest, lockParts text = earlier ++ copied ':' :: rest ∧
      textOf earlier = place.before ++ place.name ∧ textOf rest = place.pattern ++ place.behind := by
  have written : textOf (lockParts text) =
      (place.before ++ place.name) ++ ':' :: (place.pattern ++ place.behind) := by
    rw [textOf_lockParts]
    simpa using place.split
  refine exists_split written fun earlier word later same => ?_
  have frontLength : place.front.length = (place.before ++ place.name).length + 1 := by
    simp [front, Nat.add_assoc]
  rcases uncut earlier word later same with ends | starts
  · exact .inl (by omega)
  · refine .inr ?_
    rw [List.length_append] at starts
    omega

/-- Behind the colon every word that is looked up starts behind the pattern. -/
theorem length_pattern_lt (uncut : place.Uncut) {earlier rest first later : List LockPart}
    {word : Text} (parts : lockParts text = earlier ++ copied ':' :: rest)
    (frontText : textOf (earlier ++ [copied ':']) = place.front)
    (here : rest = first ++ object word :: later) :
    place.pattern.length < (textOf first).length := by
  have apart := uncut (earlier ++ copied ':' :: first) word later (by simp [parts, here])
  have size := congrArg List.length frontText
  simp only [textOf_append, textOf_cons, textOf_nil, LockPart.text, List.length_append,
    List.length_cons, List.length_nil] at apart size
  omega

theorem exists_around (uncut : place.Uncut) :
    ∃ before middle after, place.Around before middle after := by
  obtain ⟨earlier, rest, parts, earlierText, restText⟩ := exists_colon_split uncut
  have frontText : textOf (earlier ++ [copied ':']) = place.front := by
    simp [earlierText, front, LockPart.text]
  have noObjects : ∀ middle after, rest = middle ++ after →
      (textOf middle).length ≤ place.pattern.length → ∀ word, object word ∉ middle := by
    rintro middle after rfl short word member
    obtain ⟨first, later, rfl⟩ := List.append_of_mem member
    have starts := length_pattern_lt uncut parts frontText (List.append_assoc first _ after)
    simp only [textOf_append, List.length_append] at short
    omega
  cases behind : place.behind with
  | nil =>
      rw [behind, List.append_nil] at restText
      refine ⟨_, rest, [], by simp [parts], frontText, ⟨earlier, rfl⟩, restText, ?_, by simp [behind],
        .inl ⟨behind, rfl⟩⟩
      exact noObjects rest [] (by simp) (by simp [restText])
  | cons c later =>
      rw [behind] at restText
      obtain ⟨middle, after, rfl, middleText, afterText⟩ := exists_split restText
        fun first word later same => .inr (length_pattern_lt uncut parts frontText same)
      refine ⟨_, middle, copied c :: after, by simp [parts], frontText, ⟨earlier, rfl⟩, middleText, ?_,
        by simp [LockPart.text, afterText, behind], .inr ⟨c, later, after, behind, rfl⟩⟩
      exact noObjects middle _ rfl (by simp [middleText])

theorem readsBack {front behind : Text} (colon : front.getLast? = some ':')
    (first : behind.head? = place.behind.head?) : ReadsBack front place.pattern behind := by
  obtain ⟨-, inside, stops⟩ := attrTest?_eq_some place.reads
  refine ⟨colon, ?_⟩
  have all : ∀ c ∈ place.pattern, (!endsPattern c) = true := by simpa using inside
  have taken : behind.takeWhile (fun c => !endsPattern c) = [] ∧
      behind.dropWhile (fun c => !endsPattern c) = behind := by
    cases behind with
    | nil => simp
    | cons c rest =>
        have stop : endsPattern c = true := stops c (by simp [← first])
        simp [stop]
  rw [run, List.takeWhile_append_of_pos all, List.dropWhile_append_of_pos all, taken.1, taken.2,
    List.append_nil]

namespace Around

variable {before middle after : List LockPart} (around : place.Around before middle after)
include around

theorem middle_eq (noPatterns : noPattern ∉ lockParts text) : middle = copy place.pattern := by
  rw [← around.pattern]
  refine eq_copy (fun member => noPatterns ?_) around.noObjects
  rw [around.parts]
  simp [member]

theorem compiled_readsBack {compiler : Compiler} {first last : Text}
    (firstWritten : compiler.write before = .ok first)
    (lastWritten : compiler.write after = .ok last) : ReadsBack first place.pattern last := by
  refine readsBack ?_ ?_
  · obtain ⟨earlier, rfl⟩ := around.colon
    obtain ⟨_, _, -, ends, rfl⟩ := Compiler.write_append_eq_ok.mp firstWritten
    obtain rfl := Except.ok.inj ((Compiler.write_copy [':']).symm.trans ends)
    simp
  · rcases around.first with ⟨none, rfl⟩ | ⟨c, rest, later, some, rfl⟩
    · obtain rfl := Except.ok.inj lastWritten
      rw [none]
    · obtain ⟨_, _, starts, -, rfl⟩ := Compiler.write_cons_eq_ok.mp lastWritten
      obtain rfl := Except.ok.inj starts
      rw [some]
      rfl

theorem shown_readsBack (decompiler : Decompiler) :
    ReadsBack (decompiler.write before) place.pattern (decompiler.write after) := by
  refine readsBack ?_ ?_
  · obtain ⟨earlier, rfl⟩ := around.colon
    simp [Decompiler.part]
  · rcases around.first with ⟨none, rfl⟩ | ⟨c, rest, later, some, rfl⟩
    · rw [none]
      rfl
    · rw [some]
      rfl

theorem copiedBetween : place.CopiedBetween before after where
  front := around.front
  behind := around.behind
  compiled := by
    intro compiler bufferLen whole compiles untruncated
    have written := Compiler.write_of_untruncated compiles untruncated
    obtain ⟨⟨noPatterns, -⟩, -⟩ := Compiler.write_eq_ok.mp written
    rw [around.parts, around.middle_eq noPatterns] at written
    obtain ⟨first, rest, firstWritten, restWritten, wholeText⟩ :=
      Compiler.write_append_eq_ok.mp written
    obtain ⟨pattern, last, patternWritten, lastWritten, rfl⟩ :=
      Compiler.write_append_eq_ok.mp restWritten
    obtain rfl := Except.ok.inj ((Compiler.write_copy _).symm.trans patternWritten)
    exact ⟨first, last, firstWritten, lastWritten, wholeText,
      around.compiled_readsBack firstWritten lastWritten⟩
  accepted := by
    intro compiler bufferLen first last actor noPatterns firstWritten lastWritten fits
    have middle := Compiler.write_append_eq_ok.mpr
      ⟨_, _, Compiler.write_copy place.pattern, lastWritten, rfl⟩
    have written := Compiler.write_append_eq_ok.mpr ⟨_, _, firstWritten, middle, rfl⟩
    rw [← around.middle_eq noPatterns, ← around.parts] at written
    exact Compiler.compile_of_write actor written fits
  shown := by
    intro decompiler bufferLen untruncated
    have middle : decompiler.write middle = place.pattern :=
      (Decompiler.write_of_no_objects around.noObjects).trans around.pattern
    refine ⟨?_, around.shown_readsBack decompiler⟩
    rw [Decompiler.write_of_untruncated untruncated, around.parts, Decompiler.write_append,
      Decompiler.write_append, middle]

end Around

/-- A pattern is copied if no word that is looked up meets it, and otherwise such a word is
replaced. -/
theorem copied_or_replaced (place : TestPlace text) :
    (place.Uncut → ∃ before after, place.CopiedBetween before after) ∧
      (¬ place.Uncut → ∃ before word after, place.ReplacedBetween before word after) := by
  constructor
  · intro uncut
    obtain ⟨before, middle, after, around⟩ := exists_around uncut
    exact ⟨before, after, around.copiedBetween⟩
  · intro cut
    simp only [Uncut, Classical.not_forall, not_or, Nat.not_lt] at cut
    obtain ⟨before, word, after, parts, reaches, starts⟩ := cut
    exact ⟨before, word, after, parts, reaches, starts,
      fun _ _ _ compiles untruncated => Compiler.exists_of_object compiles untruncated parts,
      fun _ _ untruncated => Decompiler.decompile_of_object untruncated parts⟩

end TestPlace

/-! ## Plain patterns -/

namespace Phase

theorem next_colon {phase : Phase} (reaches : (phase.next ':').2 = pattern false) :
    ∃ parts, (phase.next ':').1 = parts ++ [copied ':'] := by
  have marks : isLeftMark ':' = false ∧ isRightMark ':' = true := by decide
  cases phase with
  | start => exact ⟨[], by simp [next, startNext, subjectNext, ends, marks]⟩
  | subject word inCall =>
      cases inCall with
      | false => exact ⟨copy word, by simp [next, subjectNext, ends, marks]⟩
      | true => simp [next, subjectNext, ends] at reaches
  | attr inCall =>
      cases inCall with
      | false => exact ⟨[], by simp [next, ends, marks]⟩
      | true => simp [next, ends] at reaches
  | pattern inCall =>
      refine ⟨[], ?_⟩
      simp only [next]
      split <;> rfl
  | behind => simp [next, marks] at reaches

theorem scan_plain {text : Text} (plain : ∀ c ∈ text, isRightMark c = false ∧ c ≠ '[') :
    scan (pattern false) text = (copy text, pattern false) := by
  induction text with
  | nil => rfl
  | cons c text ih =>
      obtain ⟨unmarked, noBracket⟩ := plain c (by simp)
      have outside : (c == '[') = false := by simpa using noBracket
      have later := ih fun d member => plain d (by simp [member])
      simp [scan, next, ends, callAfter, unmarked, outside, later]

end Phase

namespace TestPlace

variable {text : Text} {place : TestPlace text}

theorem cut_behind_pattern (place : TestPlace text) :
    Phase.cut (.pattern false) place.behind = [] ∨
      ∃ c parts, Phase.cut (.pattern false) place.behind = copied c :: parts := by
  obtain ⟨-, -, stops⟩ := attrTest?_eq_some place.reads
  cases behind : place.behind with
  | nil => exact .inl rfl
  | cons c rest =>
      have stop : endsPattern c = true := stops c (by simp [behind])
      have marked : isRightMark c = true := by
        simp only [endsPattern, Bool.or_eq_true] at stop
        rcases stop with (amp | bar) | close <;> simp [isRightMark, *]
      refine .inr ⟨c, Phase.cut .behind rest, ?_⟩
      simp [Phase.cut_cons, Phase.next, Phase.ends, marked]

theorem parts_of_plain (reaches : (Phase.scan .start place.front).2 = .pattern false)
    (plain : ∀ c ∈ place.pattern, isRightMark c = false ∧ c ≠ '[') :
    ∃ first, textOf first ++ [':'] = place.front ∧
      lockParts text =
        first ++ (copy (':' :: place.pattern) ++ Phase.cut (.pattern false) place.behind) := by
  obtain ⟨first, ends⟩ : ∃ parts, (Phase.scan .start place.front).1 = parts ++ [copied ':'] := by
    have front : place.front = (place.before ++ place.name) ++ [':'] := by simp [TestPlace.front]
    rw [front, Phase.scan_append] at reaches ⊢
    obtain ⟨parts, ends⟩ := Phase.next_colon (by simpa [Phase.scan] using reaches)
    exact ⟨(Phase.scan .start (place.before ++ place.name)).1 ++ parts, by simp [Phase.scan, ends]⟩
  have frontText : textOf first ++ [':'] = place.front := by
    have written := Phase.textOf_cut .start place.front
    rw [Phase.cut, reaches, ends] at written
    simpa [Phase.finish, Phase.pending, LockPart.text] using written
  refine ⟨first, frontText, ?_⟩
  have present : place.front ++ (place.pattern ++ place.behind) ≠ [] := by simp [← frontText]
  have whole := (congrArg lockParts place.text_eq).trans (Phase.lockParts_eq_cut present)
  rw [Phase.cut_append, reaches, ends, Phase.cut_append, Phase.scan_plain plain] at whole
  simpa using whole

theorem uncut_of_plain (reaches : (Phase.scan .start place.front).2 = .pattern false)
    (plain : ∀ c ∈ place.pattern, isRightMark c = false ∧ c ≠ '[') : place.Uncut := by
  intro earlier word later same
  obtain ⟨first, frontText, parts⟩ := parts_of_plain reaches plain
  rw [parts] at same
  have frontLength := congrArg List.length frontText
  rw [List.length_append, List.length_singleton] at frontLength
  rw [List.length_append, List.length_append]
  have early (rest : List LockPart) (before : first = earlier ++ object word :: rest) :
      (textOf earlier).length + word.length < place.front.length := by
    simp only [before, textOf_append, textOf_cons, LockPart.text, List.length_append] at frontLength
    omega
  rcases place.cut_behind_pattern with none | ⟨c, behind, some⟩
  · rw [none] at same
    rcases split_of_object same (by simp) with ⟨rest, before⟩ | ⟨rest, -, absurd⟩
    · exact .inl (early rest before)
    · simp at absurd
  · have stopped : first ++ (copy (':' :: place.pattern ++ [c]) ++ behind) =
        earlier ++ object word :: later := by simpa [some] using same
    rcases split_of_object stopped (by simp) with ⟨rest, before⟩ | ⟨rest, after, -⟩
    · exact .inl (early rest before)
    · refine .inr ?_
      simp only [after, textOf_append, textOf_copy, List.length_append, List.length_cons,
        List.length_nil]
      omega

end TestPlace
end WorldLocks
