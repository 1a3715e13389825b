import WorldLocks.Lock.Expansion
import WorldLocks.Proofs.Cursor

/-! The replacement of calls, without regard to the room for it.  An expansion is as much of it as
fits: where expanding stops early, nothing that would follow fits any more. -/

set_option autoImplicit false

namespace WorldLocks

namespace Text

theorem splitOnce_of_not_mem {mark : Char} {text : Text} (absent : mark ∉ text) :
    splitOnce mark text = none := by
  induction text with
  | nil => rfl
  | cons c rest ih =>
      have apart : c ≠ mark := fun same => absent (same ▸ List.mem_cons_self)
      rw [splitOnce, if_neg apart, ih fun member => absent (List.mem_cons_of_mem c member)]
      rfl

theorem not_mem_of_splitOnce {mark : Char} {text : Text} (whole : splitOnce mark text = none) :
    mark ∉ text := by
  induction text with
  | nil => exact List.not_mem_nil
  | cons c rest ih =>
      unfold splitOnce at whole
      split at whole
      · cases whole
      · next apart =>
        rw [Option.map_eq_none_iff] at whole
        exact List.not_mem_cons_of_ne_of_not_mem (fun same => apart same.symm) (ih whole)

theorem splitOnce_eq_some {mark : Char} {text before behind : Text}
    (split : splitOnce mark text = some (before, behind)) : text = before ++ mark :: behind := by
  induction text generalizing before with
  | nil => cases split
  | cons c rest ih =>
      unfold splitOnce at split
      split at split
      · next here =>
        cases split
        rw [here, List.nil_append]
      · obtain ⟨⟨inner, later⟩, inside, same⟩ := Option.map_eq_some_iff.mp split
        cases same
        rw [ih inside, List.cons_append]

theorem not_mem_of_splitOnce_eq_some {mark : Char} {text before behind : Text}
    (split : splitOnce mark text = some (before, behind)) : mark ∉ before := by
  induction text generalizing before with
  | nil => cases split
  | cons c rest ih =>
      unfold splitOnce at split
      split at split
      · cases split
        exact List.not_mem_nil
      · next apart =>
        obtain ⟨⟨inner, later⟩, inside, same⟩ := Option.map_eq_some_iff.mp split
        cases same
        exact List.not_mem_cons_of_ne_of_not_mem (fun same => apart same.symm) (ih inside)

theorem splitOnce_append {mark : Char} {before : Text} (absent : mark ∉ before) (behind : Text) :
    splitOnce mark (before ++ mark :: behind) = some (before, behind) := by
  induction before with
  | nil => rw [List.nil_append, splitOnce, if_pos rfl]
  | cons c rest ih =>
      obtain ⟨apart, later⟩ := List.ne_and_not_mem_of_not_mem_cons absent
      rw [List.cons_append, splitOnce, if_neg apart.symm, ih later, Option.map_some]

theorem dropBytes_suffix (count : Nat) (text : Text) : dropBytes count text <:+ text := by
  induction text generalizing count with
  | nil =>
      unfold dropBytes
      exact List.suffix_rfl
  | cons c rest ih =>
      cases count with
      | zero =>
          unfold dropBytes
          exact List.suffix_rfl
      | succ count =>
          unfold dropBytes
          exact (ih _).trans (List.suffix_cons c rest)

theorem takeBytes_eq_self_iff {room : Nat} {text : Text} :
    takeBytes room text = text ↔ bytes text ≤ room := by
  refine ⟨fun whole => ?_, takeBytes_of_bytes_le⟩
  have fits := bytes_takeBytes_le room text
  rwa [whole] at fits

/-- What is behind a text that fills the room is cut off. -/
theorem takeBytes_append_of_le {room : Nat} {text : Text} (full : room ≤ bytes text)
    (behind : Text) : takeBytes room (text ++ behind) = takeBytes room text := by
  induction text generalizing room with
  | nil =>
      obtain rfl := Nat.le_zero.mp full
      cases behind with
      | nil => rfl
      | cons c rest =>
          have wide : ¬ c.utf8Size ≤ 0 := Nat.not_le_of_lt c.utf8Size_pos
          rw [List.nil_append, takeBytes, takeBytes, if_neg wide]
  | cons c rest ih =>
      rw [List.cons_append, takeBytes, takeBytes]
      split
      · rw [ih (by simp at full; omega)]
      · rfl

theorem takeBytes_append_of_bytes_le {room : Nat} {text : Text} (fits : bytes text ≤ room)
    (behind : Text) :
    takeBytes room (text ++ behind) = text ++ takeBytes (room - bytes text) behind := by
  induction text generalizing room with
  | nil => rfl
  | cons c rest ih =>
      rw [bytes_cons] at fits
      have first : c.utf8Size ≤ room := by omega
      have later := @ih (room - c.utf8Size) (by omega)
      rw [List.cons_append, takeBytes, if_pos first, later, bytes_cons, Nat.sub_sub]
      rfl

theorem isPrefix_takeBytes_of_bytes_le {room : Nat} {short long : Text} (starts : short <+: long)
    (fits : bytes short ≤ room) : short <+: takeBytes room long := by
  obtain ⟨rest, rfl⟩ := starts
  rw [takeBytes_append_of_bytes_le fits]
  exact List.prefix_append ..

end Text

section Calls

variable (functions : FunctionEvaluator) (actor privileged : Dbref)

theorem afterCall_suffix (consumed : Nat) (call : Text) : afterCall consumed call <:+ call :=
  (Cursor.eat_suffix ']' _).trans (Text.dropBytes_suffix consumed call)

/-- What is behind a call is shorter than the text that the call is in. -/
theorem length_afterCall_lt {text before call : Text}
    (split : Text.splitOnce '[' text = some (before, call)) (consumed : Nat) :
    (afterCall consumed call).length < text.length := by
  have shorter := (afterCall_suffix consumed call).length_le
  rw [Text.splitOnce_eq_some split, List.length_append, List.length_cons]
  omega

/-- A text with all of its calls replaced by what they come to. -/
def replaceCalls (text : Text) : Text :=
  match _ : Text.splitOnce '[' text with
  | none => text
  | some (before, call) =>
    let result := functions call actor privileged
    before ++ result.output ++ replaceCalls (afterCall result.consumed call)
termination_by text.length
decreasing_by exact length_afterCall_lt ‹_› _

variable {functions actor privileged}

theorem replaceCalls_of_none {text : Text} (plain : Text.splitOnce '[' text = none) :
    replaceCalls functions actor privileged text = text := by
  unfold replaceCalls
  split
  · rfl
  · next split => rw [plain] at split; cases split

theorem replaceCalls_of_some {text before call : Text}
    (split : Text.splitOnce '[' text = some (before, call)) :
    replaceCalls functions actor privileged text =
      before ++ (functions call actor privileged).output ++
        replaceCalls functions actor privileged
          (afterCall (functions call actor privileged).consumed call) := by
  rw [replaceCalls]
  split
  · next none => rw [none] at split; cases split
  · next same => rw [same] at split; cases split; rfl

theorem takeBytes_expandOnto (limit : Nat) {bound : Nat} {ahead : Text}
    (enough : ahead.length ≤ bound) (out : Text) :
    Text.takeBytes limit (expandOnto functions actor privileged limit bound out ahead) =
      Text.takeBytes limit (out ++ replaceCalls functions actor privileged ahead) := by
  induction bound generalizing out ahead with
  | zero =>
      obtain rfl := List.length_eq_zero_iff.mp (Nat.le_zero.mp enough)
      rw [replaceCalls_of_none rfl]
      rfl
  | succ bound ih =>
      unfold expandOnto
      cases split : Text.splitOnce '[' ahead with
      | none => rw [replaceCalls_of_none split]
      | some parts =>
          obtain ⟨before, call⟩ := parts
          rw [replaceCalls_of_some split, ← List.append_assoc, ← List.append_assoc]
          dsimp only
          split
          · next full =>
            -- Whatever stands behind a text that fills the room is cut off.
            rw [List.append_assoc (out ++ before), Text.takeBytes_append_of_le full,
              Text.takeBytes_append_of_le full]
          · have shorter := length_afterCall_lt split
              (functions call actor privileged).consumed
            exact ih (by omega) _

/-- An expansion is as much of the text with its calls replaced as leaves a byte of the buffer
free. -/
theorem expand_eq (functions : FunctionEvaluator) (text : Text) (actor privileged : Dbref)
    (bufferLen : Nat) : expand functions text actor privileged bufferLen =
      Text.takeBytes (bufferLen - 1) (replaceCalls functions actor privileged text) :=
  takeBytes_expandOnto (bufferLen - 1) (Nat.le_refl _) []

/-- A text without calls is left as it is. -/
theorem expand_of_not_mem {text : Text} (plain : '[' ∉ text) {bufferLen : Nat}
    (short : Text.bytes text < bufferLen) (functions : FunctionEvaluator)
    (actor privileged : Dbref) : expand functions text actor privileged bufferLen = text := by
  rw [expand_eq, replaceCalls_of_none (Text.splitOnce_of_not_mem plain)]
  exact Text.takeBytes_of_bytes_le (by omega)

end Calls
end WorldLocks
