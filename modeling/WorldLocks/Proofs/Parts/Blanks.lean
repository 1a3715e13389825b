import WorldLocks.Proofs.Parsing.Canonical
import WorldLocks.Proofs.Parts.Pieces

/-! Blanks around the words of a lock.  The reader passes over blanks between any two tokens.  The
compiler only trims the words that it looks up, so that a blank does no harm next to a letter, but
between two marks it is taken for a word of its own, or for the first character of one. -/

set_option autoImplicit false

namespace WorldLocks

open Cursor LockPart Phase

/-! ## Blanks next to letters -/

/-- A text that consists of tokens, with blanks before, between and behind them that stand next to a
letter.  The first argument is whether a letter stands before the text. -/
inductive SpacedByWords : (near : Bool) → List Text → Text → Prop where
  | ends {near : Bool} {blanks : Text} (blank : Text.Blank blanks)
      (beside : blanks = [] ∨ near = true) : SpacedByWords near [] blanks
  | token {near : Bool} {blanks token later : Text} {tokens : List Text}
      (blank : Text.Blank blanks)
      (beside : blanks = [] ∨ near = true ∨ token.begins isLetter = true)
      (spaced : SpacedByWords (token.closes isLetter) tokens later) :
      SpacedByWords near (token :: tokens) (blanks ++ (token ++ later))

namespace Spaced

variable {tokens later : List Text} {token text before behind blanks left right : Text} {c : Char}

theorem padded_of (first : Text.Blank left) (last : Text.Blank right) :
    Spaced [token] (left ++ (token ++ right)) := .token first (.ends last)

theorem pad (spaced : Spaced tokens text) (blank : Text.Blank blanks) :
    Spaced tokens (blanks ++ text) := by
  cases spaced with
  | ends rest => exact .ends (List.forall_mem_append.mpr ⟨blank, rest⟩)
  | token first spaced =>
      rw [← List.append_assoc]
      exact .token (List.forall_mem_append.mpr ⟨blank, first⟩) spaced

theorem append (first : Spaced tokens before) (second : Spaced later behind) :
    Spaced (tokens ++ later) (before ++ behind) := by
  induction first with
  | ends blank => exact second.pad blank
  | token blank spaced ih =>
      rw [List.cons_append, List.append_assoc, List.append_assoc]
      exact .token blank ih

theorem append_mark (first : Spaced tokens before) (second : Spaced later behind) :
    Spaced (tokens ++ [c] :: later) (before ++ c :: behind) :=
  first.append (.token Text.blank_nil second)

theorem mark_cons (spaced : Spaced tokens text) : Spaced ([c] :: tokens) (c :: text) :=
  .token Text.blank_nil spaced

theorem empty_cons (spaced : Spaced tokens text) : Spaced ([] :: tokens) text :=
  .token Text.blank_nil spaced

end Spaced

namespace SpacedByWords

variable {near : Bool} {tokens later : List Text} {token text : Text} {c : Char}

theorem compact (near : Bool) : ∀ tokens : List Text, SpacedByWords near tokens tokens.flatten
  | [] => .ends Text.blank_nil (.inl rfl)
  | _ :: later => .token Text.blank_nil (.inl rfl) (compact _ later)

theorem flatten_sublist (words : SpacedByWords near tokens text) : tokens.flatten.Sublist text := by
  induction words with
  | ends blank _ => exact List.nil_sublist _
  | token blank _ _ ih =>
      exact ((List.Sublist.refl _).append ih).trans (List.sublist_append_right _ _)

/-- Only blanks are added. -/
theorem not_mem (words : SpacedByWords near tokens text) (solid : Text.isBlank c = false)
    (apart : c ∉ tokens.flatten) : c ∉ text := by
  induction words with
  | ends blank _ =>
      intro member
      simp [blank c member] at solid
  | token blank _ _ ih =>
      rw [List.flatten_cons, List.mem_append, not_or] at apart
      simp only [List.mem_append, not_or]
      refine ⟨fun member => ?_, apart.1, ih apart.2⟩
      simp [blank c member] at solid

theorem blank (words : SpacedByWords near [] text) :
    Text.Blank text ∧ (text = [] ∨ near = true) := by
  cases words with
  | ends blank beside => exact ⟨blank, beside⟩

theorem nil (words : SpacedByWords false [] text) : text = [] := by
  simpa using words.blank.2

/-- Without letters there are no blanks. -/
theorem eq_nil (words : SpacedByWords false tokens text) (nothing : tokens.flatten = []) :
    text = [] := by
  induction tokens generalizing text with
  | nil => exact words.nil
  | cons token tokens ih =>
      obtain ⟨rfl, others⟩ := List.append_eq_nil_iff.mp nothing
      cases words with
      | token blank beside words =>
          obtain rfl : _ = [] := by simpa [Text.begins] using beside
          exact ih words others

theorem of_empty (words : SpacedByWords false ([] :: tokens) text) :
    SpacedByWords false tokens text := by
  cases words with
  | token blank beside words =>
      obtain rfl : _ = [] := by simpa [Text.begins] using beside
      exact words

theorem split_mark (mark : isLetter c = false) (first : List Text)
    (words : SpacedByWords near (first ++ [c] :: later) text) :
    ∃ before behind, text = before ++ c :: behind ∧ SpacedByWords near first before ∧
      SpacedByWords false later behind := by
  induction first generalizing near text with
  | nil =>
      cases words with
      | @token _ blanks _ behind _ blank beside words =>
          have bare : Text.begins isLetter [c] = false := mark
          have ends : Text.closes isLetter [c] = false := mark
          rw [ends] at words
          rw [bare] at beside
          exact ⟨blanks, behind, rfl, .ends blank (by simpa using beside), words⟩
  | cons head first ih =>
      cases words with
      | @token _ blanks _ _ _ blank beside words =>
          obtain ⟨before, behind, rfl, early, late⟩ := ih words
          exact ⟨blanks ++ (head ++ before), behind, by simp, .token blank beside early, late⟩

theorem mark_cons (mark : isLetter c = false) (words : SpacedByWords false ([c] :: tokens) text) :
    ∃ behind, text = c :: behind ∧ SpacedByWords false tokens behind := by
  obtain ⟨before, behind, rfl, nothing, late⟩ := split_mark mark [] words
  obtain rfl := nothing.nil
  exact ⟨behind, rfl, late⟩

theorem padded (words : SpacedByWords false [token] text) :
    ∃ before after, text = before ++ (token ++ after) ∧ Text.Blank before ∧ Text.Blank after ∧
      (before = [] ∨ token.begins isLetter = true) ∧
        (after = [] ∨ token.closes isLetter = true) := by
  cases words with
  | @token _ before _ after _ first leading words =>
      obtain ⟨last, trailing⟩ := words.blank
      exact ⟨before, after, rfl, first, last, by simpa using leading, trailing⟩

end SpacedByWords

/-! ## Compiled tokens -/

namespace Compiler

variable {compiler : Compiler} {phase : Phase} {tokens later : List Text}
  {token first second out : Text} {c : Char} {good fine : Text → Prop}

/-- Whether every word of a text is found. -/
def Accepts (compiler : Compiler) (phase : Phase) (text : Text) : Prop :=
  ∃ out, compiler.write (cut phase text) = .ok out

/-- Some tokens are compiled to a text of some kind, whatever blanks stand next to their letters. -/
def CompilesTo (compiler : Compiler) (phase : Phase) (tokens : List Text) (good : Text → Prop) :
    Prop :=
  ∀ text, SpacedByWords false tokens text →
    ∃ out, compiler.write (cut phase text) = .ok out ∧ good out

theorem write_copied_cons {parts : List LockPart} :
    compiler.write (copied c :: parts) = .ok out ↔
      ∃ rest, compiler.write parts = .ok rest ∧ out = c :: rest := by
  rw [write_cons_eq_ok]
  constructor
  · rintro ⟨head, rest, here, later, rfl⟩
    obtain rfl := Except.ok.inj here
    exact ⟨rest, later, rfl⟩
  · rintro ⟨rest, later, rfl⟩
    exact ⟨[c], rest, rfl, later, rfl⟩

theorem CompilesTo.imp (compiles : compiler.CompilesTo phase tokens good)
    (weaker : ∀ out, good out → fine out) : compiler.CompilesTo phase tokens fine := by
  intro text words
  obtain ⟨out, written, is⟩ := compiles text words
  exact ⟨out, written, weaker out is⟩

/-! ### Marks before a token -/

theorem Accepts.left (accepts : compiler.Accepts phase (c :: first)) (opens : phase.Opens)
    (left : isLeftMark c = true) (notRight : isRightMark c = false) :
    compiler.Accepts start first := by
  obtain ⟨out, written⟩ := accepts
  rw [LockExpr.cut_mark opens left notRight] at written
  obtain ⟨rest, later, -⟩ := write_copied_cons.mp written
  exact ⟨rest, later⟩

theorem CompilesTo.left (compiles : compiler.CompilesTo start tokens good) (opens : phase.Opens)
    (left : isLeftMark c = true) (notRight : isRightMark c = false) :
    compiler.CompilesTo phase ([c] :: tokens) fun out =>
      ∃ inside, out = c :: inside ∧ good inside := by
  intro text words
  obtain ⟨behind, rfl, late⟩ := words.mark_cons (by simp [isLetter, left])
  obtain ⟨out, written, is⟩ := compiles behind late
  refine ⟨c :: out, ?_, out, rfl, is⟩
  rw [LockExpr.cut_mark opens left notRight]
  exact write_copied_cons.mpr ⟨out, written, rfl⟩

theorem Accepts.equals (accepts : compiler.Accepts phase ('=' :: first)) (opens : phase.Opens) :
    compiler.Accepts phase first := by
  obtain ⟨out, written⟩ := accepts
  rw [opens.cut_equals] at written
  obtain ⟨rest, later, -⟩ := write_copied_cons.mp written
  exact ⟨rest, later⟩

theorem CompilesTo.equals (compiles : compiler.CompilesTo phase tokens good) (opens : phase.Opens) :
    compiler.CompilesTo phase (['='] :: tokens) fun out =>
      ∃ inside, out = '=' :: inside ∧ good inside := by
  intro text words
  obtain ⟨behind, rfl, late⟩ := words.mark_cons (by decide)
  obtain ⟨out, written, is⟩ := compiles behind late
  refine ⟨'=' :: out, ?_, out, rfl, is⟩
  rw [opens.cut_equals]
  exact write_copied_cons.mpr ⟨out, written, rfl⟩

/-! ### Marks behind a token -/

theorem Accepts.append_end (accepts : compiler.Accepts phase (first ++ c :: second))
    (outside : phase.Outside) (noCall : '[' ∉ first) (ends : endsPattern c = true) :
    compiler.Accepts phase first ∧ compiler.Accepts behind second := by
  obtain ⟨out, written⟩ := accepts
  rw [cut_append_end outside noCall ends] at written
  obtain ⟨before, more, here, later, -⟩ := write_append_eq_ok.mp written
  obtain ⟨rest, later, -⟩ := write_copied_cons.mp later
  exact ⟨⟨before, here⟩, rest, later⟩

theorem CompilesTo.append_end (compiles : compiler.CompilesTo phase tokens good)
    (behindIt : compiler.CompilesTo behind later fine) (outside : phase.Outside)
    (noCall : '[' ∉ tokens.flatten) (ends : endsPattern c = true) :
    compiler.CompilesTo phase (tokens ++ [c] :: later) fun out =>
      ∃ before rest, out = before ++ c :: rest ∧ good before ∧ fine rest := by
  intro text words
  have mark : isLetter c = false := by simp [isLetter, isRightMark_of_endsPattern ends]
  obtain ⟨before, more, rfl, early, late⟩ := words.split_mark mark
  obtain ⟨out, written, is⟩ := compiles before early
  obtain ⟨rest, laterWritten, ok⟩ := behindIt more late
  refine ⟨out ++ c :: rest, ?_, out, rest, rfl, is, ok⟩
  rw [cut_append_end outside (early.not_mem (by decide) noCall) ends]
  exact write_append_eq_ok.mpr
    ⟨out, c :: rest, written, write_copied_cons.mpr ⟨rest, laterWritten, rfl⟩, rfl⟩

theorem compilesTo_nil : compiler.CompilesTo behind [] fun out => out = [] := by
  intro text words
  obtain rfl := words.nil
  exact ⟨[], rfl, rfl⟩

theorem CompilesTo.closed (compiles : compiler.CompilesTo phase tokens good)
    (outside : phase.Outside) (noCall : '[' ∉ tokens.flatten) :
    compiler.CompilesTo phase (tokens ++ [[')']]) fun out =>
      ∃ inside, out = inside ++ [')'] ∧ good inside :=
  (compiles.append_end compilesTo_nil outside noCall (by decide)).imp <| by
    rintro _ ⟨inside, _, rfl, is, rfl⟩
    exact ⟨inside, rfl, is⟩

/-! ### Single tokens -/

theorem write_piece_words (ready : phase.Ready) (noCall : '[' ∉ token)
    (writes : compiler.write (piece phase token c) = .ok out) {text : Text}
    (words : SpacedByWords false [token] text) :
    ∃ padded, compiler.write (piece phase text c) = .ok padded ∧ Spaced [out] padded ∧
      past phase text c = past phase token c := by
  obtain ⟨before, after, rfl, first, last, leading, trailing⟩ := words.padded
  obtain ⟨left, right, leftBlank, rightBlank, written, same⟩ :=
    write_piece_padded ready noCall first last leading trailing writes
  exact ⟨_, written, .padded_of leftBlank rightBlank, same⟩

theorem compilesTo_token (ready : phase.Ready) (noCall : '[' ∉ token)
    (writes : compiler.write (cut phase token) = .ok out) :
    compiler.CompilesTo phase [token] (Spaced [out]) := by
  intro text words
  rw [← piece_of_endsPattern (c := '&') (by decide)] at writes
  obtain ⟨padded, written, spaced, -⟩ := write_piece_words ready noCall writes words
  rw [piece_of_endsPattern (by decide)] at written
  exact ⟨padded, written, spaced⟩

theorem Accepts.append_mark (accepts : compiler.Accepts phase (token ++ c :: second))
    (outside : phase.Outside) (noCall : '[' ∉ token) (marked : isRightMark c = true)
    (notDot : c ≠ '.') :
    (∃ out, compiler.write (piece phase token c) = .ok out) ∧
      compiler.Accepts (past phase token c) second := by
  obtain ⟨out, written⟩ := accepts
  rw [cut_append_mark outside noCall marked notDot] at written
  obtain ⟨before, more, here, later, -⟩ := write_append_eq_ok.mp written
  obtain ⟨rest, later, -⟩ := write_copied_cons.mp later
  exact ⟨⟨before, here⟩, rest, later⟩

theorem CompilesTo.token_mark (ready : phase.Ready) (noCall : '[' ∉ token)
    (marked : isRightMark c = true) (notDot : c ≠ '.')
    (writes : compiler.write (piece phase token c) = .ok out)
    (behindIt : compiler.CompilesTo (past phase token c) later good) :
    compiler.CompilesTo phase (token :: [c] :: later) fun whole =>
      ∃ before rest, whole = before ++ c :: rest ∧ Spaced [out] before ∧ good rest := by
  intro text words
  obtain ⟨before, more, rfl, early, late⟩ := words.split_mark (by simp [isLetter, marked]) [token]
  obtain ⟨padded, written, spaced, same⟩ := write_piece_words ready noCall writes early
  obtain ⟨rest, laterWritten, is⟩ := behindIt more late
  refine ⟨padded ++ c :: rest, ?_, padded, rest, rfl, spaced, is⟩
  rw [cut_append_mark ready.outside (early.not_mem (by decide) (by simpa using noCall)) marked
    notDot, same]
  exact write_append_eq_ok.mpr
    ⟨padded, c :: rest, written, write_copied_cons.mpr ⟨rest, laterWritten, rfl⟩, rfl⟩

/-! ### Parentheses behind an at sign -/

/-- What stands in the parentheses behind an `@`. -/
theorem Accepts.indirect (opens : phase.Opens) (noCall : '[' ∉ first)
    (accepts : compiler.Accepts phase ('@' :: '(' :: (first ++ [')']))) :
    compiler.Accepts start first :=
  have marked := accepts.left opens (by decide) (by decide)
  have opened := marked.left (.inl rfl) (by decide) (by decide)
  (opened.append_end trivial noCall (by decide)).1

/-- What is compiled inside the parentheses behind an `@` is compiled with them. -/
theorem CompilesTo.indirect (opens : phase.Opens) (noCall : '[' ∉ tokens.flatten)
    (compiles : compiler.CompilesTo start tokens good) :
    compiler.CompilesTo phase (['@'] :: ['('] :: (tokens ++ [[')']])) fun out =>
      ∃ inside, out = '@' :: '(' :: (inside ++ [')']) ∧ good inside := by
  have closed := compiles.closed trivial noCall
  have opened := closed.left (.inl rfl) (show isLeftMark '(' = true by decide) (by decide)
  refine (opened.left opens (by decide) (by decide)).imp ?_
  rintro _ ⟨_, rfl, _, rfl, inside, rfl, is⟩
  exact ⟨inside, rfl, is⟩

end Compiler
end WorldLocks
