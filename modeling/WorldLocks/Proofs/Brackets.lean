import WorldLocks.Proofs.Expansion

/-! Balanced brackets.  The host that leaves calls as they are counts brackets.  So a call ends for
it at the bracket that closes the one before the call, and a text is expanded call by call. -/

set_option autoImplicit false

namespace WorldLocks

/-- A text in which every bracket is closed, after those inside it. -/
inductive Balanced : Text → Prop where
  | nil : Balanced []
  | char {c : Char} {rest : Text} : c ≠ '[' → c ≠ ']' → Balanced rest → Balanced (c :: rest)
  | call {inner behind : Text} :
      Balanced inner → Balanced behind → Balanced ('[' :: (inner ++ ']' :: behind))

namespace Text

theorem dropBytes_zero (text : Text) : dropBytes 0 text = text := by
  cases text <;> rfl

theorem dropBytes_append (first behind : Text) :
    dropBytes (bytes first) (first ++ behind) = behind := by
  induction first with
  | nil => exact dropBytes_zero behind
  | cons c rest ih =>
      have wide := c.utf8Size_pos
      obtain ⟨count, size⟩ : ∃ count, bytes (c :: rest) = count + 1 :=
        Nat.exists_eq_succ_of_ne_zero (by rw [bytes_cons]; omega)
      have step : dropBytes (count + 1) (c :: (rest ++ behind)) =
          dropBytes (count + 1 - c.utf8Size) (rest ++ behind) := rfl
      rw [size, List.cons_append, step, ← size, bytes_cons, Nat.add_sub_cancel_left, ih]

end Text

namespace Balanced

variable {text call : Text}

theorem open_mem (balanced : Balanced text) (closes : ']' ∈ text) : '[' ∈ text := by
  induction balanced with
  | nil => cases closes
  | char _ notClose _ ih =>
      rcases List.mem_cons.mp closes with rfl | later
      · exact absurd rfl notClose
      · exact List.mem_cons_of_mem _ (ih later)
  | call => exact List.mem_cons_self

theorem callSpan_append (balanced : Balanced text) (opened : Nat) (behind : Text) :
    callSpan opened (text ++ behind) = text ++ callSpan opened behind := by
  induction balanced generalizing opened behind with
  | nil => rfl
  | char _ notClose _ ih =>
      rw [List.cons_append, List.cons_append, ← ih]
      cases opened <;> simp [callSpan, notClose]
  | call _ _ inner later => simp [callSpan, inner, later]

/-- A balanced call is passed through up to the bracket that closes it. -/
theorem passthrough_call (balanced : Balanced call) (behind : Text) (actor privileged : Dbref) :
    passthrough (call ++ ']' :: behind) actor privileged = ⟨call, Text.bytes call⟩ := by
  have span : callSpan 0 (call ++ ']' :: behind) = call := by
    rw [balanced.callSpan_append]
    exact List.append_nil call
  rw [passthrough, span]

section Expansion

variable {functions : FunctionEvaluator} {actor privileged : Dbref}

theorem replaceCalls_cons {c : Char} (plain : c ≠ '[') (rest : Text) :
    replaceCalls functions actor privileged (c :: rest) =
      c :: replaceCalls functions actor privileged rest := by
  cases split : Text.splitOnce '[' rest with
  | none =>
      have whole : Text.splitOnce '[' (c :: rest) = none := by
        rw [Text.splitOnce, if_neg plain, split]
        rfl
      rw [replaceCalls_of_none split, replaceCalls_of_none whole]
  | some parts =>
      obtain ⟨before, call⟩ := parts
      have whole : Text.splitOnce '[' (c :: rest) = some (c :: before, call) := by
        rw [Text.splitOnce, if_neg plain, split]
        rfl
      rw [replaceCalls_of_some split, replaceCalls_of_some whole]
      rfl

theorem replaceCalls_call (balanced : Balanced call) (behind : Text) :
    replaceCalls passthrough actor privileged ('[' :: (call ++ ']' :: behind)) =
      call ++ replaceCalls passthrough actor privileged behind := by
  have split : Text.splitOnce '[' ('[' :: (call ++ ']' :: behind)) =
      some ([], call ++ ']' :: behind) := rfl
  have rest : afterCall (Text.bytes call) (call ++ ']' :: behind) = behind := by
    rw [afterCall, Text.dropBytes_append]
    rfl
  rw [replaceCalls_of_some split, balanced.passthrough_call, rest, List.nil_append]

/-- The calls of a balanced text are replaced without regard to what is behind it. -/
theorem replaceCalls_append (balanced : Balanced text) (behind : Text) :
    replaceCalls passthrough actor privileged (text ++ behind) =
      replaceCalls passthrough actor privileged text ++
        replaceCalls passthrough actor privileged behind := by
  induction balanced with
  | nil =>
      have nothing : replaceCalls passthrough actor privileged [] = [] := replaceCalls_of_none rfl
      rw [nothing]
      rfl
  | char plain _ _ ih =>
      rw [List.cons_append, replaceCalls_cons plain, replaceCalls_cons plain, ih, List.cons_append]
  | call inner _ _ later =>
      rw [replaceCalls_call inner, List.cons_append, List.append_assoc, List.cons_append,
        replaceCalls_call inner, later, List.append_assoc]

end Expansion
end Balanced
end WorldLocks
