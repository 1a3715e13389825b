import WorldLocks.Proofs.Parts.Compiled

/-! What a lock is compiled to piece by piece.  Between two marks the scan takes a piece of the
text, and what it makes of the piece is settled by the mark behind it.  A piece is compiled to a
piece of the same kind, and blanks around it only pad it: in a word that is looked up they are
trimmed away, and in one that is copied they are copied. -/

set_option autoImplicit false

namespace WorldLocks

open Cursor LockPart

/-! ## Letters -/

/-- A character that is neither a blank nor a mark. -/
def isLetter (c : Char) : Bool := !Text.isBlank c && !isLeftMark c && !isRightMark c

/-- Whether a text ends with a character of a kind. -/
def Text.closes (kind : Char → Bool) (text : Text) : Bool := text.getLast?.any kind

variable {c d : Char}

theorem isLetter_iff : isLetter c = true ↔
    Text.isBlank c = false ∧ isLeftMark c = false ∧ isRightMark c = false := by
  simp [isLetter, and_assoc]

theorem not_mark_of_isBlank (blank : Text.isBlank c = true) :
    isLeftMark c = false ∧ isRightMark c = false ∧ c ≠ '[' := by
  refine ⟨Bool.eq_false_iff.mpr fun marked => ?_, isRightMark_of_isBlank blank, ?_⟩
  · rcases LockExpr.eq_of_isLeftMark marked with rfl | rfl | rfl | rfl | rfl <;>
      exact absurd blank (by decide)
  · rintro rfl
    exact absurd blank (by decide)

theorem eq_of_both_marks (left : isLeftMark c = true) (right : isRightMark c = true) : c = '=' := by
  rcases LockExpr.eq_of_isLeftMark left with rfl | rfl | rfl | rfl | rfl
  all_goals first | rfl | exact absurd right (by decide)

/-! ## Pieces -/

namespace Phase

variable {phase : Phase} {word text blanks first second : Text}

/-- Whether a right mark would be seen as one. -/
def Outside : Phase → Prop
  | subject _ inCall | attr inCall | pattern inCall => inCall = false
  | start | behind => True

/-- What a right mark, or the end of the text, settles about the text before it.  Only a dot is
passed over otherwise. -/
def closing : Phase → Char → List LockPart
  | start, c => if c = ':' ∨ c = '=' then [] else alone []
  | subject word _, c => if c = ':' then copy word else alone word
  | attr _, c => if c = ':' then [] else [noPattern]
  | pattern _, _ | behind, _ => []

/-- The phase behind a right mark that is no dot. -/
def beyond : Phase → Char → Phase
  | start, c => if c = '=' then start else if c = ':' then pattern false else behind
  | subject _ _, c | attr _, c => if c = ':' then pattern false else behind
  | pattern _, _ | behind, _ => behind

/-- The parts of a text before a right mark. -/
def piece (phase : Phase) (text : Text) (c : Char) : List LockPart :=
  (scan phase text).1 ++ (scan phase text).2.closing c

/-- The phase behind a text and the right mark that follows it. -/
def past (phase : Phase) (text : Text) (c : Char) : Phase := (scan phase text).2.beyond c

theorem Outside.next_mark (outside : phase.Outside) (marked : isRightMark c = true)
    (notDot : c ≠ '.') : phase.next c = (phase.closing c ++ [copied c], phase.beyond c) := by
  by_cases colon : c = ':'
  · subst colon
    cases phase with
    | subject word inCall | attr inCall | pattern inCall =>
        obtain rfl : inCall = false := outside
        rfl
    | start | behind => rfl
  by_cases equals : c = '='
  · subst equals
    cases phase with
    | subject word inCall | attr inCall | pattern inCall =>
        obtain rfl : inCall = false := outside
        rfl
    | start | behind => rfl
  have bare : isLeftMark c = false :=
    Bool.eq_false_iff.mpr fun left => equals (eq_of_both_marks left marked)
  cases phase with
  | subject word inCall | attr inCall | pattern inCall =>
      obtain rfl : inCall = false := outside
      simp [next, subjectNext, ends, closing, beyond, marked, colon, notDot]
  | start | behind =>
      simp [next, startNext, subjectNext, ends, closing, beyond, bare, marked, equals, colon,
        notDot]

/-- A word that holds no call is looked up before a dot as before the other marks. -/
theorem subject_next_mark (marked : isRightMark c = true) (noCall : '[' ∉ word) :
    (subject word false).next c = ((subject word false).closing c ++ [copied c],
      if c = '.' then attr false else (subject word false).beyond c) := by
  by_cases dot : c = '.'
  · subst dot
    simp [next, subjectNext, ends, closing, marked, alone_of_not_mem noCall]
  · have outside : (subject word false).Outside := rfl
    rw [outside.next_mark marked dot, if_neg dot]

theorem Outside.next (outside : phase.Outside) (noCall : c ≠ '[') : (phase.next c).2.Outside := by
  have stays : callAfter false c = false := by simp [callAfter, noCall]
  cases phase with
  | start =>
      simp only [Phase.next, startNext, subjectNext]
      split_ifs <;> simp_all [Outside]
  | subject word inCall =>
      obtain rfl : inCall = false := outside
      simp only [Phase.next, subjectNext]
      split_ifs <;> simp_all [Outside]
  | attr inCall =>
      obtain rfl : inCall = false := outside
      simp only [Phase.next]
      split_ifs <;> simp_all [Outside]
  | pattern inCall =>
      obtain rfl : inCall = false := outside
      simp only [Phase.next]
      split_ifs <;> simp_all [Outside]
  | behind =>
      simp only [Phase.next, startNext, subjectNext]
      split_ifs <;> simp_all [Outside]

theorem Outside.scan (outside : phase.Outside) (noCall : '[' ∉ text) :
    (scan phase text).2.Outside := by
  induction text generalizing phase with
  | nil => exact outside
  | cons c rest ih =>
      simp only [List.mem_cons, not_or] at noCall
      exact ih (outside.next fun same => noCall.1 same.symm) noCall.2

theorem scan_cons (phase : Phase) (c : Char) (rest : Text) :
    scan phase (c :: rest) =
      ((phase.next c).1 ++ (scan (phase.next c).2 rest).1, (scan (phase.next c).2 rest).2) := rfl

theorem piece_append (phase : Phase) (first second : Text) (c : Char) :
    piece phase (first ++ second) c =
      (scan phase first).1 ++ piece (scan phase first).2 second c := by
  simp [piece, scan_append]

theorem piece_cons (phase : Phase) (d : Char) (rest : Text) (c : Char) :
    piece phase (d :: rest) c = (phase.next d).1 ++ piece (phase.next d).2 rest c := by
  simp [piece, scan_cons]

theorem past_append (phase : Phase) (first second : Text) (c : Char) :
    past phase (first ++ second) c = past (scan phase first).2 second c := by
  simp [past, scan_append]

theorem past_cons (phase : Phase) (d : Char) (rest : Text) (c : Char) :
    past phase (d :: rest) c = past (phase.next d).2 rest c := rfl

/-- A text is cut at a right mark into the pieces before and behind it. -/
theorem cut_append_mark (outside : phase.Outside) (noCall : '[' ∉ first)
    (marked : isRightMark c = true) (notDot : c ≠ '.') (second : Text) :
    cut phase (first ++ c :: second) =
      piece phase first c ++ copied c :: cut (past phase first c) second := by
  rw [cut_append, cut_cons, (outside.scan noCall).next_mark marked notDot]
  simp [piece, past]

theorem closing_of_endsPattern (ends : endsPattern c = true) (phase : Phase) :
    phase.closing c = phase.finish := by
  simp only [endsPattern, Bool.or_eq_true, beq_iff_eq] at ends
  rcases ends with (rfl | rfl) | rfl <;> cases phase <;> simp [closing, finish]

theorem beyond_of_endsPattern (ends : endsPattern c = true) (phase : Phase) :
    phase.beyond c = behind := by
  simp only [endsPattern, Bool.or_eq_true, beq_iff_eq] at ends
  rcases ends with (rfl | rfl) | rfl <;> cases phase <;> simp [beyond]

theorem piece_of_endsPattern (ends : endsPattern c = true) (phase : Phase) (text : Text) :
    piece phase text c = cut phase text := by
  rw [piece, closing_of_endsPattern ends, cut]

/-- At a mark that ends a pattern, a text is cut as two. -/
theorem cut_append_end (outside : phase.Outside) (noCall : '[' ∉ first)
    (ends : endsPattern c = true) (second : Text) :
    cut phase (first ++ c :: second) = cut phase first ++ copied c :: cut behind second := by
  have notDot : c ≠ '.' := by
    rintro rfl
    exact absurd ends (by decide)
  rw [cut_append_mark outside noCall (isRightMark_of_endsPattern ends) notDot,
    piece_of_endsPattern ends, past, beyond_of_endsPattern ends]

theorem textOf_closing (phase : Phase) (c : Char) : textOf (phase.closing c) = phase.pending := by
  cases phase with
  | start | attr _ =>
      simp only [closing]
      split_ifs <;> simp [pending, LockPart.text]
  | subject word inCall =>
      simp only [closing]
      split_ifs <;> simp [pending]
  | pattern _ | behind => rfl

/-- The parts of a piece, with the first word of a subject that was begun before it, are the
piece. -/
theorem textOf_piece (phase : Phase) (text : Text) (c : Char) :
    textOf (piece phase text c) = phase.pending ++ text := by
  rw [piece, textOf_append, textOf_closing, textOf_scan]

theorem Opens.outside (opens : phase.Opens) : phase.Outside := by
  rcases opens with rfl | rfl <;> trivial

theorem Opens.pending (opens : phase.Opens) : phase.pending = [] := by
  rcases opens with rfl | rfl <;> rfl

/-- An equals sign is copied where an object can be named, and leaves the scan there. -/
theorem Opens.cut_equals (opens : phase.Opens) (rest : Text) :
    cut phase ('=' :: rest) = copied '=' :: cut phase rest := by
  rcases opens with rfl | rfl <;> rfl

theorem opens_past_equals (phase : Phase) (text : Text) : (past phase text '=').Opens := by
  unfold past
  cases (scan phase text).2 with
  | start => exact .inl rfl
  | subject _ _ | attr _ | pattern _ | behind => exact .inr rfl

/-! ### Words -/

/-- Whether a word has been begun, that is looked up or copied. -/
inductive InWord : Phase → Prop where
  | subject (word : Text) : InWord (subject word false)
  | attr : InWord (attr false)
  | pattern : InWord (pattern false)

/-- Behind a letter the scan is in a word. -/
theorem Outside.inWord (outside : phase.Outside) (letter : isLetter c = true) (noCall : c ≠ '[') :
    (phase.next c).2.InWord := by
  obtain ⟨-, left, right⟩ := isLetter_iff.mp letter
  have stays : callAfter false c = false := by simp [callAfter, noCall]
  cases phase with
  | start => simpa [Phase.next, startNext, subjectNext, ends, left, right, stays] using .subject [c]
  | subject word inCall =>
      obtain rfl : inCall = false := outside
      simpa [Phase.next, subjectNext, ends, right, stays] using .subject (word ++ [c])
  | attr inCall =>
      obtain rfl : inCall = false := outside
      simpa [Phase.next, ends, right, stays] using .attr
  | pattern inCall =>
      obtain rfl : inCall = false := outside
      simpa [Phase.next, ends, right, stays] using .pattern
  | behind =>
      simpa [Phase.next, startNext, subjectNext, ends, left, right, stays] using .subject [c]

/-- In a word, blanks are taken as a part of it. -/
theorem scan_copied_blanks {reads : Phase} (passes : ∀ c, isRightMark c = false → c ≠ '[' →
      reads.next c = ([copied c], reads)) (blank : Text.Blank blanks) :
    scan reads blanks = (copy blanks, reads) := by
  induction blanks with
  | nil => rfl
  | cons c rest ih =>
      obtain ⟨here, later⟩ := List.forall_mem_cons.mp blank
      obtain ⟨-, right, noCall⟩ := not_mark_of_isBlank here
      rw [scan_cons, passes c right noCall, ih later]
      rfl

theorem attr_passes (right : isRightMark c = false) (noCall : c ≠ '[') :
    (attr false).next c = ([copied c], attr false) := by
  simp [next, ends, callAfter, right, noCall]

theorem pattern_passes (right : isRightMark c = false) (noCall : c ≠ '[') :
    (pattern false).next c = ([copied c], pattern false) := by
  simp [next, ends, callAfter, right, noCall]

theorem scan_subject_blanks (blank : Text.Blank blanks) (word : Text) :
    scan (subject word false) blanks = ([], subject (word ++ blanks) false) :=
  scan_subject (fun c member => not_mark_of_isBlank (blank c member)) word

/-- Where a subject can begin, a blank or a letter begins its first word. -/
theorem Opens.scan_eq_subject (opens : phase.Opens) (present : text ≠ [])
    (unmarked : ∀ c ∈ text.head?, isLeftMark c = false ∧ isRightMark c = false) :
    scan phase text = scan (subject [] false) text := by
  obtain ⟨c, rest, rfl⟩ := List.exists_cons_of_ne_nil present
  obtain ⟨left, right⟩ := unmarked c (by simp)
  rcases opens with rfl | rfl <;> simp [scan_cons, next, startNext, left, right]

/-- Whether a token can stand next, be it a name or a pattern. -/
def Ready (phase : Phase) : Prop := phase.Opens ∨ phase = pattern false

theorem Opens.ready (opens : phase.Opens) : phase.Ready := .inl opens

theorem ready_start : start.Ready := .inl (.inl rfl)

theorem ready_past_colon (phase : Phase) (text : Text) : (past phase text ':').Ready := by
  unfold past
  cases (scan phase text).2 with
  | start | subject _ _ | attr _ => exact .inr rfl
  | pattern _ | behind => exact .inl (.inr rfl)

theorem Ready.outside (ready : phase.Ready) : phase.Outside := by
  rcases ready with opens | rfl
  · exact opens.outside
  · rfl

theorem Ready.pending (ready : phase.Ready) : phase.pending = [] := by
  rcases ready with opens | rfl
  · exact opens.pending
  · rfl

theorem Ready.textOf_piece (ready : phase.Ready) (text : Text) (c : Char) :
    textOf (piece phase text c) = text := by
  rw [Phase.textOf_piece, ready.pending]
  rfl

theorem Ready.textOf_cut (ready : phase.Ready) (text : Text) : textOf (cut phase text) = text := by
  rw [Phase.textOf_cut, ready.pending]
  rfl

end Phase

/-! ## Compiled pieces -/

open Phase

namespace Compiler

variable {compiler : Compiler} {parts : List LockPart} {text out word blanks before after : Text}
  {phase : Phase}

theorem part_object_congr {first second : Text} (same : Text.trim first = Text.trim second) :
    compiler.part (.object first) = compiler.part (.object second) := by
  simp [part, objectOf, same]

theorem write_object_congr {first second : Text} (same : Text.trim first = Text.trim second)
    (parts : List LockPart) :
    compiler.write (.object first :: parts) = compiler.write (.object second :: parts) := by
  simp only [write, part_object_congr same]

/-! ### Kinds of texts -/

/-- What is written are characters of the text and literals. -/
theorem forall_mem_of_write {test : Char → Prop} (writes : compiler.write parts = .ok out)
    (literal : ∀ ref : Dbref, ∀ c ∈ ref.literal, test c) (all : ∀ c ∈ textOf parts, test c) :
    ∀ c ∈ out, test c := by
  induction parts generalizing out with
  | nil =>
      obtain rfl := Except.ok.inj writes
      simp
  | cons part parts ih =>
      obtain ⟨first, rest, here, later, rfl⟩ := write_cons_eq_ok.mp writes
      rw [textOf_cons] at all
      have others := ih later fun c member => all c (List.mem_append_right _ member)
      refine List.forall_mem_append.mpr ⟨?_, others⟩
      cases part with
      | copied c =>
          obtain rfl := Except.ok.inj here
          exact fun d member => all d (List.mem_append_left _ member)
      | object word =>
          obtain ⟨target, -, rfl⟩ := map_eq_ok.mp here
          exact literal target
      | noPattern => cases here

theorem head?_of_write (writes : compiler.write parts = .ok out) :
    ∀ c ∈ out.head?, c ∈ (textOf parts).head? ∨ c = '#' := by
  cases parts with
  | nil =>
      obtain rfl := Except.ok.inj writes
      simp
  | cons part parts =>
      obtain ⟨first, rest, here, later, rfl⟩ := write_cons_eq_ok.mp writes
      cases part with
      | copied c =>
          obtain rfl := Except.ok.inj here
          exact fun d head => .inl head
      | object word =>
          obtain ⟨target, -, rfl⟩ := map_eq_ok.mp here
          intro d head
          obtain rfl : '#' = d := by simpa [Dbref.literal] using head
          exact .inr rfl
      | noPattern => cases here

theorem eq_nil_of_write (writes : compiler.write parts = .ok []) : parts = [] := by
  cases parts with
  | nil => rfl
  | cons part parts =>
      obtain ⟨first, rest, here, later, nothing⟩ := write_cons_eq_ok.mp writes
      obtain ⟨rfl, -⟩ := List.append_eq_nil_iff.mp nothing.symm
      cases part with
      | copied c => cases here
      | object word =>
          obtain ⟨target, -, empty⟩ := map_eq_ok.mp here
          cases empty
      | noPattern => cases here

theorem getLast?_of_write (writes : compiler.write parts = .ok out) :
    ∀ c ∈ out.getLast?, c ∈ (textOf parts).getLast? ∨ ∃ ref : Dbref, c ∈ ref.literal.getLast? := by
  induction parts generalizing out with
  | nil =>
      obtain rfl := Except.ok.inj writes
      simp
  | cons part parts ih =>
      obtain ⟨first, rest, here, later, rfl⟩ := write_cons_eq_ok.mp writes
      intro c last
      by_cases none : rest = []
      · subst none
        obtain rfl := eq_nil_of_write later
        rw [List.append_nil] at last
        cases part with
        | copied d =>
            obtain rfl := Except.ok.inj here
            exact .inl last
        | object word =>
            obtain ⟨target, -, rfl⟩ := map_eq_ok.mp here
            exact .inr ⟨target, last⟩
        | noPattern => cases here
      · rw [List.getLast?_append_of_ne_nil _ none] at last
        refine (ih later c last).imp_left fun behind => ?_
        have more : textOf parts ≠ [] := by
          intro nothing
          simp [nothing] at behind
        rwa [textOf_cons, List.getLast?_append_of_ne_nil _ more]

theorem trimmed_of_write (writes : compiler.write parts = .ok out)
    (trimmed : Text.Trimmed (textOf parts)) : Text.Trimmed out := by
  obtain ⟨first, last⟩ := Text.trimmed_iff.mp trimmed
  refine Text.trimmed_iff.mpr ⟨fun c head => ?_, fun c ends => ?_⟩
  · rcases head?_of_write writes c head with same | rfl
    · exact first c same
    · decide
  · rcases getLast?_of_write writes c ends with same | ⟨ref, same⟩
    · exact last c same
    · exact (Text.trimmed_iff.mp (LockExpr.isName_literal ref).trimmed).2 c same

theorem begins_of_write {kind : Char → Bool} (writes : compiler.write parts = .ok out)
    (hash : kind '#' = false) (not : (textOf parts).begins kind = false) :
    out.begins kind = false := by
  refine Text.begins_eq_false_iff.mpr fun c head => ?_
  rcases head?_of_write writes c head with same | rfl
  · exact Text.begins_eq_false_iff.mp not c same
  · exact hash

/-! ### Blanks -/

/-- Blanks before the first word of a subject are copied with it before a colon, and trimmed away
otherwise. -/
theorem write_closing_subject (blank : Text.Blank blanks) (noCall : '[' ∉ word) (c : Char) :
    ∃ left, Text.Blank left ∧ ∀ parts out,
      compiler.write ((Phase.subject word false).closing c ++ parts) = .ok out →
        compiler.write ((Phase.subject (blanks ++ word) false).closing c ++ parts) =
          .ok (left ++ out) := by
  by_cases colon : c = ':'
  · subst colon
    refine ⟨blanks, blank, fun parts out writes => ?_⟩
    change compiler.write (copy (blanks ++ word) ++ parts) = _
    change compiler.write (copy word ++ parts) = _ at writes
    rw [copy_append, List.append_assoc, write_copy_append, writes]
    rfl
  · have apart : '[' ∉ blanks := fun member => (not_mark_of_isBlank (blank _ member)).2.2 rfl
    have same : Text.trim (blanks ++ word) = Text.trim word := by
      simpa using Text.trim_padded blank Text.blank_nil word
    refine ⟨[], Text.blank_nil, fun parts out writes => ?_⟩
    simp only [closing, colon, if_false, alone_of_not_mem noCall] at writes
    simp only [closing, colon, if_false, alone_of_not_mem (List.not_mem_append apart noCall)]
    exact (write_object_congr same parts).trans writes

/-- Blanks before the first word of a subject only pad the piece that it begins. -/
theorem write_subject_padded (blank : Text.Blank blanks) (noCall : '[' ∉ word ++ text)
    (writes : compiler.write (piece (.subject word false) text c) = .ok out) :
    ∃ left, Text.Blank left ∧
      compiler.write (piece (.subject (blanks ++ word) false) text c) = .ok (left ++ out) ∧
        past (.subject (blanks ++ word) false) text c = past (.subject word false) text c := by
  induction text generalizing word out with
  | nil =>
      rw [List.append_nil] at noCall
      obtain ⟨left, leftBlank, written⟩ := write_closing_subject blank noCall c
      have whole := written [] out (by simpa [piece] using writes)
      exact ⟨left, leftBlank, by simpa [piece] using whole, rfl⟩
  | cons d rest ih =>
      have apart : '[' ∉ blanks := fun member => (not_mark_of_isBlank (blank _ member)).2.2 rfl
      simp only [List.mem_append, List.mem_cons, not_or] at noCall
      obtain ⟨inWord, notCall, behindIt⟩ := noCall
      rw [piece_cons] at writes
      rw [piece_cons, past_cons, past_cons]
      cases marked : isRightMark d with
      | false =>
          have step (word : Text) :
              (Phase.subject word false).next d = ([], .subject (word ++ [d]) false) := by
            have stays : callAfter false d = false := by
              simpa [callAfter] using fun same => notCall same.symm
            simp [next, subjectNext, ends, marked, stays]
          rw [step] at writes
          rw [step, step, List.append_assoc]
          exact ih (by simp [inWord, notCall, behindIt]) writes
      | true =>
          obtain ⟨left, leftBlank, written⟩ := write_closing_subject blank inWord d
          rw [subject_next_mark marked inWord, List.append_assoc] at writes
          rw [subject_next_mark marked (List.not_mem_append apart inWord),
            subject_next_mark marked inWord, List.append_assoc]
          exact ⟨left, leftBlank, written _ _ writes, rfl⟩

/-- Blanks behind a word are copied with it, or trimmed away. -/
theorem write_closing_padded (inWord : phase.InWord) (noCall : '[' ∉ phase.pending)
    (blank : Text.Blank blanks) (writes : compiler.write (phase.closing c) = .ok out) :
    ∃ right, Text.Blank right ∧ compiler.write (piece phase blanks c) = .ok (out ++ right) ∧
      past phase blanks c = phase.beyond c := by
  have apart : '[' ∉ blanks := fun member => (not_mark_of_isBlank (blank _ member)).2.2 rfl
  cases inWord with
  | subject word =>
      have begun : scan (.subject word false) blanks = ([], .subject (word ++ blanks) false) :=
        scan_subject_blanks blank word
      have noCall : '[' ∉ word := noCall
      by_cases colon : c = ':'
      · refine ⟨blanks, blank, ?_, by simp [past, begun, beyond]⟩
        have copies : compiler.write (copy word) = .ok out := by
          simpa [closing, colon] using writes
        obtain rfl : word = out := by simpa using copies
        simp [piece, begun, closing, colon, write_copy_append, Except.map]
      · refine ⟨[], Text.blank_nil, ?_, by simp [past, begun, beyond]⟩
        have same : Text.trim (word ++ blanks) = Text.trim word := Text.trim_append_blank blank word
        have looked := @write_object_congr compiler _ _ same []
        have whole : alone (word ++ blanks) = [object (word ++ blanks)] :=
          alone_of_not_mem (by simp [apart, noCall])
        simpa [piece, begun, closing, colon, whole, looked, alone_of_not_mem noCall] using writes
  | attr =>
      have copies := scan_copied_blanks (fun _ => attr_passes) blank
      by_cases colon : c = ':'
      · refine ⟨blanks, blank, ?_, by simp [past, copies]⟩
        obtain rfl : [] = out := by simpa [closing, colon, write] using writes
        simp [piece, copies, closing, colon]
      · simp [closing, colon, write, part, bind, Except.bind] at writes
  | pattern =>
      have copies := scan_copied_blanks (fun _ => pattern_passes) blank
      refine ⟨blanks, blank, ?_, by simp [past, copies]⟩
      obtain rfl : [] = out := by simpa [closing, write] using writes
      simp [piece, copies, closing]
theorem write_piece_leading (ready : phase.Ready) (noCall : '[' ∉ text)
    (blank : Text.Blank before) (beside : before = [] ∨ text.begins isLetter = true)
    (writes : compiler.write (piece phase text c) = .ok out) :
    ∃ left, Text.Blank left ∧
      compiler.write (piece phase (before ++ text) c) = .ok (left ++ out) ∧
        past phase (before ++ text) c = past phase text c := by
  rcases beside with rfl | letter
  · exact ⟨[], Text.blank_nil, writes, rfl⟩
  obtain ⟨d, rest, rfl⟩ : ∃ d rest, text = d :: rest := by
    cases text with
    | nil => cases letter
    | cons d rest => exact ⟨d, rest, rfl⟩
  obtain ⟨-, left, right⟩ := isLetter_iff.mp (show isLetter d = true from letter)
  rcases ready with opens | rfl
  · have bare := opens.scan_eq_subject (List.cons_ne_nil d rest) (by simp [left, right])
    have padded : scan phase (before ++ d :: rest) =
        scan (.subject [] false) (before ++ d :: rest) := by
      refine opens.scan_eq_subject (by simp) fun c head => ?_
      cases before with
      | nil =>
          obtain rfl : d = c := by simpa using head
          exact ⟨left, right⟩
      | cons b more =>
          obtain rfl : b = c := by simpa using head
          obtain ⟨left, right, -⟩ := not_mark_of_isBlank (blank b List.mem_cons_self)
          exact ⟨left, right⟩
    have begun := scan_subject_blanks blank []
    have padding := @write_subject_padded c compiler (d :: rest) out [] before blank
      (by simpa using noCall) (by simpa [piece, bare] using writes)
    simpa [piece, past, bare, padded, scan_append, begun] using padding
  · have copies := scan_copied_blanks (fun _ => pattern_passes) blank
    refine ⟨before, blank, ?_, by rw [past_append, copies]⟩
    rw [piece_append, copies, write_copy_append, writes]
    rfl

theorem write_piece_trailing (outside : phase.Outside) (fresh : phase.pending = [])
    (noCall : '[' ∉ text) (blank : Text.Blank after)
    (beside : after = [] ∨ text.closes isLetter = true)
    (writes : compiler.write (piece phase text c) = .ok out) :
    ∃ right, Text.Blank right ∧
      compiler.write (piece phase (text ++ after) c) = .ok (out ++ right) ∧
        past phase (text ++ after) c = past phase text c := by
  rcases beside with rfl | letter
  · exact ⟨[], Text.blank_nil, by simpa using writes, by simp⟩
  obtain ⟨init, d, rfl⟩ : ∃ init d, text = init ++ [d] := by
    rcases List.eq_nil_or_concat' text with rfl | ⟨init, d, rfl⟩
    · cases letter
    · exact ⟨init, d, rfl⟩
  have letter : isLetter d = true := by simpa [Text.closes] using letter
  simp only [List.mem_append, List.mem_singleton, not_or] at noCall
  have inWord : (scan phase (init ++ [d])).2.InWord := by
    have begun := (outside.scan noCall.1).inWord letter fun same => noCall.2 same.symm
    simpa [scan_append, scan] using begun
  have pending : '[' ∉ (scan phase (init ++ [d])).2.pending := by
    intro member
    have written := textOf_scan phase (init ++ [d])
    rw [fresh, List.nil_append] at written
    have inside : '[' ∈ init ++ [d] := written ▸ List.mem_append_right _ member
    simp [noCall.1, noCall.2] at inside
  obtain ⟨first, last, firstWritten, lastWritten, rfl⟩ := write_append_eq_ok.mp writes
  obtain ⟨right, rightBlank, padded, same⟩ := write_closing_padded inWord pending blank lastWritten
  refine ⟨right, rightBlank, ?_, by rw [past_append, same]; rfl⟩
  rw [piece_append]
  exact write_append_eq_ok.mpr ⟨first, last ++ right, firstWritten, padded, by simp⟩

/-- Blanks next to the letters of a token only pad what the token is compiled to. -/
theorem write_piece_padded (ready : phase.Ready) (noCall : '[' ∉ word)
    (first : Text.Blank before) (last : Text.Blank after)
    (leading : before = [] ∨ word.begins isLetter = true)
    (trailing : after = [] ∨ word.closes isLetter = true)
    (writes : compiler.write (piece phase word c) = .ok out) :
    ∃ left right, Text.Blank left ∧ Text.Blank right ∧
      compiler.write (piece phase (before ++ (word ++ after)) c) = .ok (left ++ (out ++ right)) ∧
        past phase (before ++ (word ++ after)) c = past phase word c := by
  obtain ⟨left, leftBlank, written, stays⟩ := write_piece_leading ready noCall first leading writes
  have apart : '[' ∉ before := fun member => (not_mark_of_isBlank (first _ member)).2.2 rfl
  have closes : after = [] ∨ (before ++ word).closes isLetter = true := by
    refine trailing.imp_right fun letter => ?_
    cases word with
    | nil => cases letter
    | cons d rest =>
        rw [Text.closes, List.getLast?_append_of_ne_nil _ (List.cons_ne_nil d rest)]
        exact letter
  obtain ⟨right, rightBlank, whole, same⟩ := write_piece_trailing ready.outside ready.pending
    (List.not_mem_append apart noCall) last closes written
  refine ⟨left, right, leftBlank, rightBlank, ?_, ?_⟩
  · rwa [← List.append_assoc, ← List.append_assoc]
  · rw [← List.append_assoc, same, stays]

end Compiler
end WorldLocks
