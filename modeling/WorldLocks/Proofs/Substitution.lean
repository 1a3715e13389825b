import WorldLocks.Proofs.Expansion

/-! Expanding is substitution cut to the buffer.  What a text becomes when all of its calls are
replaced is told by two rules, without a limit and without the loop; the rules give every text
exactly one such result, and an expansion is the longest beginning of it that the buffer holds. -/

set_option autoImplicit false

namespace WorldLocks

/-! ## Beginnings and ends -/

namespace Text

/-- Whether a text is the longest beginning of another one that takes up at most `room` bytes. -/
structure IsLongestWithin (room : Nat) (whole part : Text) : Prop where
  starts : part <+: whole
  fits : bytes part ≤ room
  longest : ∀ other, other <+: whole → bytes other ≤ room → other <+: part

theorem isLongestWithin_takeBytes (room : Nat) (whole : Text) :
    IsLongestWithin room whole (takeBytes room whole) where
  starts := takeBytes_prefix room whole
  fits := bytes_takeBytes_le room whole
  longest := fun _ starts fits => isPrefix_takeBytes_of_bytes_le starts fits

/-- Whether a text is what is left of another one behind as few characters as make up `count`
bytes, or behind all of them if there are not that many bytes. -/
def IsBehind (count : Nat) (text rest : Text) : Prop :=
  ∃ skipped, text = skipped ++ rest ∧ min count (bytes text) ≤ bytes skipped ∧
    ∀ other, other <+: text → min count (bytes text) ≤ bytes other → skipped <+: other

theorem isBehind_dropBytes (count : Nat) (text : Text) :
    IsBehind count text (dropBytes count text) := by
  induction text generalizing count with
  | nil => exact ⟨[], by simp [dropBytes], by simp, fun _ _ _ => List.nil_prefix⟩
  | cons c rest ih =>
      cases count with
      | zero => exact ⟨[], rfl, by simp, fun _ _ _ => List.nil_prefix⟩
      | succ count =>
          obtain ⟨skipped, split, enough, least⟩ := ih (count + 1 - c.utf8Size)
          have wide := c.utf8Size_pos
          refine ⟨c :: skipped, congrArg (c :: ·) split, ?_, ?_⟩
          · rw [bytes_cons, bytes_cons]
            omega
          · intro other starts long
            cases other with
            | nil =>
                rw [bytes_cons, bytes_nil] at long
                omega
            | cons d other =>
                obtain ⟨rfl, later⟩ := List.cons_prefix_cons.mp starts
                rw [bytes_cons, bytes_cons] at long
                exact List.cons_prefix_cons.mpr ⟨rfl, least other later (by omega)⟩

/-- Skipping bytes leaves one text. -/
theorem isBehind_iff {count : Nat} {text rest : Text} :
    IsBehind count text rest ↔ rest = dropBytes count text := by
  constructor
  · intro behind
    obtain ⟨skipped, split, enough, least⟩ := behind
    obtain ⟨other, otherSplit, otherEnough, otherLeast⟩ := isBehind_dropBytes count text
    have shorter := least other ⟨_, otherSplit.symm⟩ otherEnough
    have longer := otherLeast skipped ⟨_, split.symm⟩ enough
    have same : skipped = other := shorter.eq_of_length_le longer.length_le
    rw [same] at split
    exact List.append_cancel_left (split.symm.trans otherSplit)
  · intro left
    rw [left]
    exact isBehind_dropBytes count text

end Text

namespace Cursor

/-- Passing over a mark leaves what is behind the mark if it is next, and everything otherwise. -/
theorem eat_eq_iff {mark : Char} {ahead rest : Cursor} :
    eat mark ahead = rest ↔ ahead = mark :: rest ∨ ahead = rest ∧ ahead.head? ≠ some mark := by
  cases ahead with
  | nil => simp [eat, eat?]
  | cons c behind =>
      by_cases here : c = mark
      · simp [eat, eat?, here]
      · simp [eat, eat?, here]

end Cursor

/-! ## Substitution -/

/-- What a text becomes when its calls are replaced.  A text without a bracket stands for itself.
Otherwise what is before the first bracket is copied, the host answers for the text behind it, and
behind the bytes that the host has used up, and behind a closing bracket if one is next, the rest is
treated likewise. -/
inductive Substitutes (functions : FunctionEvaluator) (actor privileged : Dbref) :
    Text → Text → Prop where
  | plain {text : Text} (none : '[' ∉ text) : Substitutes functions actor privileged text text
  | call {before call left rest whole : Text} (first : '[' ∉ before)
      (used : Text.IsBehind (functions call actor privileged).consumed call left)
      (closes : left = ']' :: rest ∨ left = rest ∧ left.head? ≠ some ']')
      (later : Substitutes functions actor privileged rest whole) :
      Substitutes functions actor privileged (before ++ '[' :: call)
        (before ++ (functions call actor privileged).output ++ whole)

section Substitution

variable {functions : FunctionEvaluator} {actor privileged : Dbref} {text whole : Text}

theorem eq_replaceCalls_of_substitutes
    (substitutes : Substitutes functions actor privileged text whole) :
    whole = replaceCalls functions actor privileged text := by
  induction substitutes with
  | plain none => exact (replaceCalls_of_none (Text.splitOnce_of_not_mem none)).symm
  | call first used closes _ ih =>
      rw [replaceCalls_of_some (Text.splitOnce_append first _), afterCall,
        ← Text.isBehind_iff.mp used, Cursor.eat_eq_iff.mpr closes, ← ih]

theorem substitutes_replaceCalls (functions : FunctionEvaluator) (actor privileged : Dbref)
    (text : Text) :
    Substitutes functions actor privileged text (replaceCalls functions actor privileged text) := by
  cases split : Text.splitOnce '[' text with
  | none =>
      rw [replaceCalls_of_none split]
      exact .plain (Text.not_mem_of_splitOnce split)
  | some parts =>
      obtain ⟨before, call⟩ := parts
      have shorter := length_afterCall_lt split (functions call actor privileged).consumed
      have later := substitutes_replaceCalls functions actor privileged
        (afterCall (functions call actor privileged).consumed call)
      rw [replaceCalls_of_some split, Text.splitOnce_eq_some split]
      exact .call (Text.not_mem_of_splitOnce_eq_some split) (Text.isBehind_dropBytes _ _)
        (Cursor.eat_eq_iff.mp rfl) later
termination_by text.length

/-- The rules give every text one result. -/
theorem substitutes_iff : Substitutes functions actor privileged text whole ↔
    whole = replaceCalls functions actor privileged text := by
  constructor
  · exact eq_replaceCalls_of_substitutes
  · intro same
    rw [same]
    exact substitutes_replaceCalls functions actor privileged text

end Substitution

/-- For every host, whatever it answers and however many bytes it says it has used up, every text
becomes exactly one text when its calls are replaced, and expanding gives the longest beginning of
it, in whole characters, that leaves a byte of the buffer free.  A buffer without any room counts as
one of one byte. -/
theorem expand_isLongestWithin (functions : FunctionEvaluator) (text : Text)
    (actor privileged : Dbref) (bufferLen : Nat) :
    ∃ whole, (∀ other, Substitutes functions actor privileged text other ↔ other = whole) ∧
      Text.IsLongestWithin (max bufferLen 1 - 1) whole
        (expand functions text actor privileged bufferLen) := by
  refine ⟨replaceCalls functions actor privileged text, fun _ => substitutes_iff, ?_⟩
  have room : max bufferLen 1 - 1 = bufferLen - 1 := by omega
  rw [expand_eq, room]
  exact Text.isLongestWithin_takeBytes (bufferLen - 1) _

/-- The host stops inside a character, which is skipped whole; its answer is not looked through for
calls again. -/
example :
    let host : FunctionEvaluator := fun _ _ _ => ⟨"[é".toList, 1⟩
    [0, 3, 5, 9].map (expand host "[é]x".toList .system .system) =
      [[], "[".toList, "[éx".toList, "[éx".toList] := by
  decide +kernel

end WorldLocks
