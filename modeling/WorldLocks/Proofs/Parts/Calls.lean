import WorldLocks.Proofs.Brackets
import WorldLocks.Proofs.Parts.Patterns
import WorldLocks.Proofs.Parts.RoundTrip
import WorldLocks.Proofs.Trimming

/-! Calls in locks.  The expander counts brackets, so a call ends for it at the bracket that closes
it, but a word is cut at the first closing bracket.  Behind that bracket the rest of a call with
calls inside it is cut into words as if it stood outside, and some of those words are looked up. -/

set_option autoImplicit false

namespace WorldLocks

open Cursor LockPart

/-! ## Words with calls -/

namespace Phase

/-- Whether the scan stands in a call. -/
def inCall : Phase → Bool
  | subject _ inCall | attr inCall | pattern inCall => inCall
  | start | behind => false

theorem callAfter_of_ends {inCall : Bool} {c : Char} (ended : ends inCall c) :
    callAfter inCall c = false := by
  simp only [ends, Bool.and_eq_true, Bool.not_eq_true'] at ended
  obtain ⟨rfl, marked⟩ := ended
  refine beq_eq_false_iff_ne.mpr ?_
  rintro rfl
  exact absurd marked (by decide)

@[simp] theorem callAfter_close (inCall : Bool) : callAfter inCall ']' = false := by
  cases inCall <;> rfl

theorem inCall_subjectNext (word : Text) (inCall : Bool) (c : Char) :
    (subjectNext word inCall c).2.inCall = callAfter inCall c := by
  unfold subjectNext
  split
  · next ended =>
    rw [callAfter_of_ends ended]
    split
    · rfl
    · split <;> rfl
  · rfl

theorem inCall_startNext (c : Char) : (startNext c).2.inCall = callAfter false c := by
  unfold startNext
  split
  · next marked =>
    have notOpen : c ≠ '[' := by
      rintro rfl
      exact absurd marked (by decide)
    exact (beq_eq_false_iff_ne.mpr notOpen).symm
  · exact inCall_subjectNext [] false c

/-- In every phase a call begins and ends at the same brackets. -/
theorem inCall_next (phase : Phase) (c : Char) :
    (phase.next c).2.inCall = callAfter phase.inCall c := by
  cases phase with
  | start => exact inCall_startNext c
  | subject word inCall => exact inCall_subjectNext word inCall c
  | attr inCall =>
      rw [next]
      split
      · next ended =>
        rw [Phase.inCall, callAfter_of_ends ended]
        split <;> rfl
      · rfl
  | pattern inCall =>
      rw [next]
      split
      · next ended => exact (callAfter_of_ends ended).symm
      · rfl
  | behind =>
      rw [next]
      split
      · next marked =>
        have ended : ends false c = true := by simp [ends, marked]
        exact (callAfter_of_ends ended).symm
      · exact inCall_startNext c

theorem inCall_scan (phase : Phase) (text : Text) :
    (scan phase text).2.inCall = text.foldl callAfter phase.inCall := by
  induction text generalizing phase with
  | nil => rfl
  | cons c rest ih =>
      rw [List.foldl_cons, ← inCall_next, ← ih]
      rfl

theorem wordFrom_append_of_whole {inCall : Bool} {first : Text}
    (whole : wordFrom inCall first = (first, [])) (rest : Text) :
    wordFrom inCall (first ++ rest) =
      (first ++ (wordFrom (first.foldl callAfter inCall) rest).1,
        (wordFrom (first.foldl callAfter inCall) rest).2) := by
  induction first generalizing inCall with
  | nil => rfl
  | cons c first ih =>
      cases ended : ends inCall c with
      | true =>
          rw [wordFrom_of_ends ended] at whole
          exact absurd (congrArg Prod.fst whole) (List.cons_ne_nil c first).symm
      | false =>
          rw [wordFrom_cons ended] at whole
          obtain ⟨text, behindIt⟩ := Prod.mk.inj whole
          have later : wordFrom (callAfter inCall c) first = (first, []) :=
            Prod.ext (List.cons.inj text).2 behindIt
          rw [List.cons_append, wordFrom_cons ended, ih later]
          rfl

variable {span rest : Text}

/-- The word that a span is in is copied, or a dot follows it. -/
theorem cut_subject_span (word : Text) (opens : '[' ∈ span)
    (reads : wordFrom false (span ++ rest) =
      (span ++ (wordFrom false rest).1, (wordFrom false rest).2)) :
    (∃ later, cut (subject word false) (span ++ rest) = copy word ++ (copy span ++ later)) ∨
      ∃ last later, cut (subject word false) (span ++ rest) =
        object (word ++ (span ++ last)) :: copied '.' :: later := by
  have faces := faces_wordFrom false rest
  have inside (last : Text) : '[' ∈ word ++ (span ++ last) := by simp [opens]
  rw [cut_subject, reads]
  generalize wordFrom false rest = tail at faces ⊢
  obtain ⟨last, behindIt⟩ := tail
  dsimp only at faces ⊢
  cases behindIt with
  | nil => exact .inl ⟨copy last, by simp [finish, alone_of_mem (inside last)]⟩
  | cons c behindIt =>
      have marked : ends false c := faces c (by simp)
      rw [cut_cons, next, subjectNext, if_pos marked]
      by_cases colon : c = ':'
      · rw [if_pos colon]
        simp only [copy_append, List.append_assoc]
        exact .inl ⟨_, rfl⟩
      · rw [if_neg colon]
        by_cases dot : c = '.'
        · rw [if_pos dot, dot]
          exact .inr ⟨last, _, rfl⟩
        · rw [if_neg dot, alone_of_mem (inside last)]
          simp only [copy_append, List.append_assoc]
          exact .inl ⟨_, rfl⟩

theorem cut_start_open (rest : Text) :
    cut start ('[' :: rest) = cut (subject [] false) ('[' :: rest) ∧
      cut behind ('[' :: rest) = cut (subject [] false) ('[' :: rest) := by
  rw [cut_cons, cut_cons, cut_cons]
  exact ⟨rfl, rfl⟩

/-- A span that is part of one word is copied, unless it is in the first word of a subject and a dot
follows that word. -/
theorem cut_span {phase : Phase} (outside : phase.inCall = false) {inner : Text}
    (opens : span = '[' :: inner)
    (reads : wordFrom false (span ++ rest) =
      (span ++ (wordFrom false rest).1, (wordFrom false rest).2)) :
    (∃ first later, cut phase (span ++ rest) = first ++ (copy span ++ later) ∧
        textOf first = phase.pending) ∨
      ∃ last later, cut phase (span ++ rest) =
        object (phase.pending ++ (span ++ last)) :: copied '.' :: later := by
  have bracket : '[' ∈ span := by simp [opens]
  have asSubject (word : Text) := cut_subject_span word bracket reads
  have begun : ∀ phase : Phase, cut phase (span ++ rest) = cut (subject [] false) (span ++ rest) →
      (∃ first later, cut phase (span ++ rest) = first ++ (copy span ++ later) ∧
        textOf first = []) ∨
      ∃ last later, cut phase (span ++ rest) = object (span ++ last) :: copied '.' :: later := by
    intro phase same
    rw [same]
    exact (asSubject []).imp (fun ⟨later, cuts⟩ => ⟨[], later, cuts, rfl⟩) id
  cases phase with
  | start => exact begun start (by rw [opens]; exact (cut_start_open _).1)
  | behind => exact begun behind (by rw [opens]; exact (cut_start_open _).2)
  | subject word inCall =>
      obtain rfl : inCall = false := outside
      exact (asSubject word).imp
        (fun ⟨later, cuts⟩ => ⟨copy word, later, cuts, textOf_copy word⟩) id
  | attr inCall =>
      obtain rfl : inCall = false := outside
      refine .inl ⟨[], copy (wordFrom false rest).1 ++ cut (attr false) (wordFrom false rest).2,
        ?_, rfl⟩
      rw [cut_attr, word, reads]
      simp
  | pattern inCall =>
      obtain rfl : inCall = false := outside
      refine .inl ⟨[], copy (wordFrom false rest).1 ++ cut behind (wordFrom false rest).2, ?_, rfl⟩
      rw [cut_pattern, word, reads]
      simp

end Phase

namespace Balanced

open Phase

variable {text : Text}

theorem foldl_callAfter (balanced : Balanced text) : text.foldl callAfter false = false := by
  induction balanced with
  | nil => rfl
  | char notOpen _ _ ih =>
      have outside : callAfter false _ = false := beq_eq_false_iff_ne.mpr notOpen
      rw [List.foldl_cons, outside, ih]
  | call _ _ _ later =>
      rw [List.foldl_cons, List.foldl_append, List.foldl_cons, callAfter_close, later]

end Balanced

/-! ## Places -/

/-- An outermost call of a lock: the lock is what is before the call, the call in its brackets and
what is behind it. -/
structure CallPlace (text : Text) where
  before : Text
  call : Text
  behind : Text
  split : text = before ++ '[' :: (call ++ ']' :: behind)
  outer : Balanced before
  inner : Balanced call

namespace CallPlace

variable {text : Text} {place : CallPlace text}

/-- The call in its brackets. -/
def span (place : CallPlace text) : Text := '[' :: (place.call ++ [']'])

theorem text_eq (place : CallPlace text) :
    text = place.before ++ (place.span ++ place.behind) := by
  simp [span, place.split]

theorem length_span (place : CallPlace text) : place.span.length = place.call.length + 2 := by
  simp [span]

/-- Whether every word that is looked up ends before the call or starts behind it. -/
def Uncut (place : CallPlace text) : Prop :=
  ∀ earlier word later, lockParts text = earlier ++ object word :: later →
    (textOf earlier ++ word).length ≤ place.before.length ∨
      (place.before ++ place.span).length ≤ (textOf earlier).length

/-- Whether the call is cut as a single word, brackets included. -/
def IsWord (place : CallPlace text) : Prop := Cursor.word place.span = (⟨place.span⟩, [])

/-- What compiling and decompiling make of a lock whose call stands between some parts: they rewrite
the parts before and behind it and put the call in between. -/
structure CopiedBetween (place : CallPlace text) (before after : List LockPart) : Prop where
  front : textOf before = place.before
  behind : textOf after = place.behind
  compiled : ∀ (compiler : Compiler) (bufferLen : Nat) (whole : CompiledLock),
    compiler.compile text bufferLen = .ok whole → compiler.Untruncated text bufferLen →
    ∃ first last, compiler.write before = .ok first ∧ compiler.write after = .ok last ∧
      whole.text = first ++ (place.span ++ last)
  shown : ∀ (decompiler : Decompiler) (bufferLen : Nat),
    decompiler.Untruncated text bufferLen →
    decompiler.decompile text bufferLen =
      decompiler.write before ++ (place.span ++ decompiler.write after)

/-- What compiling and decompiling make of a lock in which a word that meets the call is looked up:
the word is replaced. -/
structure LookedUpBetween (place : CallPlace text) (before : List LockPart) (word : Text)
    (after : List LockPart) : Prop where
  parts : lockParts text = before ++ object word :: after
  reaches : place.before.length < (textOf before ++ word).length
  starts : (textOf before).length < (place.before ++ place.span).length
  compiled : ∀ (compiler : Compiler) (bufferLen : Nat) (whole : CompiledLock),
    compiler.compile text bufferLen = .ok whole → compiler.Untruncated text bufferLen →
    ∃ first target last, compiler.write before = .ok first ∧
      compiler.objectOf ⟨word⟩ = .ok target ∧ compiler.write after = .ok last ∧
      whole.text = first ++ (target.literal ++ last)
  shown : ∀ (decompiler : Decompiler) (bufferLen : Nat),
    decompiler.Untruncated text bufferLen →
    decompiler.decompile text bufferLen =
      decompiler.write before ++ (decompiler.word ⟨word⟩ ++ decompiler.write after)

/-- The call is in a word that a dot follows: the compiler looks the word up, and it is shown as it
is. -/
structure BeforeDot (place : CallPlace text) (before : List LockPart) (first last : Text)
    (after : List LockPart) : Prop where
  front : textOf before ++ first = place.before
  lookedUp : place.LookedUpBetween before (first ++ (place.span ++ last)) (copied '.' :: after)
  shown : ∀ decompiler : Decompiler,
    decompiler.word ⟨first ++ (place.span ++ last)⟩ = first ++ (place.span ++ last)

/-- What becomes of an outermost call.  The expander takes it to its closing bracket.  It is copied
if no word that is looked up meets it, and otherwise such a word is replaced.  If it is cut as one
word, as it is without a call inside it, such a word can only be the word that it is in. -/
structure Treated (place : CallPlace text) : Prop where
  expanded : ∀ actor privileged bufferLen,
    passthrough (place.call ++ ']' :: place.behind) actor privileged =
        ⟨place.call, Text.bytes place.call⟩ ∧
      expand passthrough text actor privileged bufferLen =
        Text.takeBytes (bufferLen - 1)
          (replaceCalls passthrough actor privileged place.before ++
            (place.call ++ replaceCalls passthrough actor privileged place.behind))
  copied : place.Uncut → ∃ before after, place.CopiedBetween before after
  lookedUp : ¬ place.Uncut → ∃ before word after, place.LookedUpBetween before word after
  plain : '[' ∉ place.call → place.IsWord
  word : place.IsWord →
    place.Uncut ∨ ∃ before first last after, place.BeforeDot before first last after

/-! ## Copying -/

/-- The parts of a lock around an uncut call. -/
structure Around (place : CallPlace text) (before middle after : List LockPart) : Prop where
  parts : lockParts text = before ++ (middle ++ after)
  front : textOf before = place.before
  span : textOf middle = place.span
  noObjects : ∀ word, object word ∉ middle
  behind : textOf after = place.behind

theorem exists_around (uncut : place.Uncut) :
    ∃ before middle after, place.Around before middle after := by
  have size := place.length_span
  have written : textOf (lockParts text) =
      place.before ++ '[' :: (place.call ++ ']' :: place.behind) := by
    rw [textOf_lockParts]
    exact place.split
  obtain ⟨before, rest, parts, front, restText⟩ := exists_split written
    fun earlier word later same => by
      have apart := uncut earlier word later same
      simp only [List.length_append] at apart ⊢
      omega
  -- Behind the opening bracket every word that is looked up starts behind the call.
  have starts (earlier : List LockPart) (word : Text) (later : List LockPart)
      (same : rest = earlier ++ object word :: later) :
      place.call.length < (textOf earlier).length := by
    have apart := uncut (before ++ copied '[' :: earlier) word later (by simp [parts, same])
    have frontLength := congrArg List.length front
    simp only [textOf_append, textOf_cons, LockPart.text, List.length_append, List.length_cons,
      List.length_nil] at apart
    omega
  obtain ⟨middle, after, rfl, middleText, afterText⟩ := exists_split restText
    fun earlier word later same => .inr (starts earlier word later same)
  have noObjects : ∀ word, object word ∉ middle := by
    intro word member
    obtain ⟨first, later, rfl⟩ := List.append_of_mem member
    have late := starts first word _ (List.append_assoc ..)
    have length := congrArg List.length middleText
    rw [textOf_append, List.length_append] at length
    omega
  exact ⟨before, copied '[' :: (middle ++ [copied ']']), after, {
    parts := by simp [parts]
    front := front
    span := by simp [LockPart.text, middleText, span]
    noObjects := by simpa using noObjects
    behind := afterText }⟩

theorem Around.copiedBetween {before middle after : List LockPart}
    (around : place.Around before middle after) : place.CopiedBetween before after where
  front := around.front
  behind := around.behind
  compiled := by
    intro compiler bufferLen whole compiles untruncated
    have written := Compiler.write_of_untruncated compiles untruncated
    obtain ⟨⟨noPatterns, -⟩, -⟩ := Compiler.write_eq_ok.mp written
    have copies : middle = copy place.span := by
      rw [← around.span]
      refine eq_copy (fun member => noPatterns ?_) around.noObjects
      rw [around.parts]
      simp [member]
    rw [around.parts, copies] at written
    obtain ⟨first, rest, firstWritten, restWritten, wholeText⟩ :=
      Compiler.write_append_eq_ok.mp written
    obtain ⟨span, last, spanWritten, lastWritten, rfl⟩ := Compiler.write_append_eq_ok.mp restWritten
    obtain rfl := Except.ok.inj ((Compiler.write_copy _).symm.trans spanWritten)
    exact ⟨first, last, firstWritten, lastWritten, wholeText⟩
  shown := by
    intro decompiler bufferLen untruncated
    rw [Decompiler.write_of_untruncated untruncated, around.parts, Decompiler.write_append,
      Decompiler.write_append, Decompiler.write_of_no_objects around.noObjects, around.span]

theorem lookedUpBetween {before after : List LockPart} {word : Text}
    (parts : lockParts text = before ++ object word :: after)
    (reaches : place.before.length < (textOf before ++ word).length)
    (starts : (textOf before).length < (place.before ++ place.span).length) :
    place.LookedUpBetween before word after where
  parts := parts
  reaches := reaches
  starts := starts
  compiled _ _ _ compiles untruncated := Compiler.exists_of_object compiles untruncated parts
  shown _ _ untruncated := Decompiler.decompile_of_object untruncated parts

/-! ## Calls that are words -/

theorem isWord_of_plain (plain : '[' ∉ place.call) : place.IsWord := by
  have noClose : ']' ∉ place.call := fun closes => plain (place.inner.open_mem closes)
  have swallows : ∀ call : Text, ']' ∉ call →
      wordFrom true (call ++ [']']) = (call ++ [']'], []) := by
    intro call
    induction call with
    | nil => exact fun _ => rfl
    | cons c call ih =>
        intro absent
        simp only [List.mem_cons, not_or] at absent
        obtain ⟨apart, later⟩ := absent
        have inside : (c != ']') = true := bne_iff_ne.mpr (Ne.symm apart)
        rw [List.cons_append, wordFrom, inside, ih later]
  have whole := swallows place.call noClose
  unfold IsWord span word
  rw [wordFrom, if_neg (by decide), show ('[' == '[') = true from rfl, whole]

theorem reads_of_isWord (isWord : place.IsWord) :
    wordFrom false (place.span ++ place.behind) =
      (place.span ++ (wordFrom false place.behind).1, (wordFrom false place.behind).2) := by
  have whole : wordFrom false place.span = (place.span, []) := by
    have text := congrArg (fun read => read.1.text) isWord
    have behind := congrArg Prod.snd isWord
    exact Prod.ext text behind
  have outside : place.span.foldl Phase.callAfter false = false := by
    rw [span, List.foldl_cons, List.foldl_append, List.foldl_cons, Phase.callAfter_close]
    rfl
  rw [Phase.wordFrom_append_of_whole whole, outside]

end CallPlace

theorem Decompiler.word_of_open {word : Text} (opens : '[' ∈ word) (decompiler : Decompiler) :
    decompiler.word ⟨word⟩ = word := by
  have inside : '[' ∈ Text.trim word := Text.mem_trim opens (by decide)
  have notNumber : numbered? (Text.trim word) = none := by
    unfold numbered?
    split
    · next digits trimmed =>
      rw [trimmed] at inside
      have bracket : '[' ∈ digits := (List.mem_cons.mp inside).resolve_left (by decide)
      have mixed : digits.all Text.isDigit = false :=
        List.all_eq_false.mpr ⟨'[', bracket, by decide⟩
      simp [mixed]
    · rfl
  rw [Decompiler.word, notNumber]

namespace CallPlace

variable {text : Text} {place : CallPlace text}

theorem uncut_of_copied {first later : List LockPart} (front : textOf first = place.before)
    (parts : lockParts text = first ++ (copy place.span ++ later)) : place.Uncut := by
  intro earlier word rest same
  rw [parts] at same
  have frontLength := congrArg List.length front
  rcases split_of_object same (fun other => object_not_mem_copy other _) with
    ⟨inner, rfl⟩ | ⟨inner, rfl, -⟩
  · simp only [textOf_append, textOf_cons, LockPart.text, List.length_append] at frontLength ⊢
    omega
  · simp only [textOf_append, textOf_copy, List.length_append] at frontLength ⊢
    omega

/-- A call that is cut as one word is copied, or it is in a word that a dot follows. -/
theorem uncut_or_beforeDot (isWord : place.IsWord) :
    place.Uncut ∨ ∃ before first last after, place.BeforeDot before first last after := by
  have present : place.before ++ (place.span ++ place.behind) ≠ [] := by simp [span]
  have whole := (congrArg lockParts place.text_eq).trans (Phase.lockParts_eq_cut present)
  rw [Phase.cut_append] at whole
  have outside : (Phase.scan .start place.before).2.inCall = false := by
    rw [Phase.inCall_scan]
    exact place.outer.foldl_callAfter
  have written : textOf (Phase.scan .start place.before).1 ++
      (Phase.scan .start place.before).2.pending = place.before := Phase.textOf_scan ..
  have opens : place.span = '[' :: (place.call ++ [']']) := rfl
  rcases Phase.cut_span outside opens (reads_of_isWord isWord) with
    ⟨first, later, cuts, firstText⟩ | ⟨last, later, cuts⟩
  · refine .inl (@uncut_of_copied _ _ ((Phase.scan .start place.before).1 ++ first) later ?_ ?_)
    · rw [textOf_append, firstText, written]
    · rw [whole, cuts, List.append_assoc]
  · rw [cuts] at whole
    have length := congrArg List.length written
    rw [List.length_append] at length
    have size := place.length_span
    refine .inr ⟨_, _, last, later, written, lookedUpBetween whole ?_ ?_, fun decompiler => ?_⟩
    · simp only [List.length_append]
      omega
    · rw [List.length_append]
      omega
    · exact decompiler.word_of_open (by simp [span])

/-! ## All calls -/

theorem expanded (place : CallPlace text) (actor privileged : Dbref) (bufferLen : Nat) :
    passthrough (place.call ++ ']' :: place.behind) actor privileged =
        ⟨place.call, Text.bytes place.call⟩ ∧
      expand passthrough text actor privileged bufferLen =
        Text.takeBytes (bufferLen - 1)
          (replaceCalls passthrough actor privileged place.before ++
            (place.call ++ replaceCalls passthrough actor privileged place.behind)) := by
  refine ⟨place.inner.passthrough_call .., ?_⟩
  have replaced : replaceCalls passthrough actor privileged
      (place.before ++ '[' :: (place.call ++ ']' :: place.behind)) = _ :=
    place.outer.replaceCalls_append _
  rw [← place.split, place.inner.replaceCalls_call] at replaced
  rw [expand_eq, replaced]

/-- An outermost call is copied if no word that is looked up meets it, and otherwise such a word is
replaced.  A call without calls inside it is only met by the word that it is in, before a dot. -/
theorem calls_copied_or_looked_up (place : CallPlace text) : place.Treated where
  expanded := place.expanded
  copied := by
    intro uncut
    obtain ⟨before, middle, after, around⟩ := exists_around uncut
    exact ⟨before, after, around.copiedBetween⟩
  lookedUp := by
    intro cut
    simp only [Uncut, Classical.not_forall, not_or, Nat.not_le] at cut
    obtain ⟨before, word, after, parts, reaches, starts⟩ := cut
    exact ⟨before, word, after, lookedUpBetween parts reaches starts⟩
  plain := isWord_of_plain
  word := uncut_or_beforeDot

/-- A call with two calls inside it and a name between them. -/
def nested : CallPlace "[a[b]|p|[c]]".toList where
  before := []
  call := "a[b]|p|[c]".toList
  behind := []
  split := rfl
  outer := .nil
  inner := .char (by decide) (by decide) (.call (.char (by decide) (by decide) .nil)
    (.char (by decide) (by decide) (.char (by decide) (by decide) (.char (by decide) (by decide)
      (.call (.char (by decide) (by decide) .nil) .nil)))))

/-- The name between the two calls is looked up. -/
theorem calls_copied_or_looked_up_nested :
    (¬ nested.Uncut ∧ ∃ before word after, nested.LookedUpBetween before word after) ∧
      Compiler.compile ⟨.ofPlayer ['p'], (World.ofPlayer ['p']).matcher, .system⟩
          "[a[b]|p|[c]]".toList 16 = .ok ⟨"[a[b]|#0|[c]]".toList, []⟩ := by
  have cut : ¬ nested.Uncut := by
    intro uncut
    have apart := uncut (copy "[a[b]|".toList) ['p'] (copy "|[c]]".toList) (by decide +kernel)
    exact absurd apart (by decide)
  exact ⟨⟨cut, (calls_copied_or_looked_up nested).lookedUp cut⟩, by decide +kernel⟩

end CallPlace
end WorldLocks
