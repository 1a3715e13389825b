import WorldLocks.Proofs.Evaluation.Frame
import WorldLocks.Proofs.Evaluation.Verdict
import WorldLocks.Proofs.Expansion

/-! How long a lock may be.  The lock that an evaluation starts with is refused if it is too long.
A lock that only grows too long when its calls are replaced is not refused but cut: it is decided by
what fits into the buffer.  As long as nothing is cut, a longer buffer makes no difference. -/

set_option autoImplicit false

namespace WorldLocks

namespace Evaluator

variable {ev : Evaluator} {state : Evaluation} {actor locked : Dbref} {text : Text}

/-! ## Cuts -/

/-- A lock text with its calls replaced, as it would be without a limit on its length. -/
def uncut (ev : Evaluator) (actor locked : Dbref) (text : Text) : Text :=
  replaceCalls ev.functions actor locked text

@[simp] theorem uncut_withBuffer (ev : Evaluator) (bufferLen : Nat) (actor locked : Dbref)
    (text : Text) : (ev.withBuffer bufferLen).uncut actor locked text =
      ev.uncut actor locked text := rfl

/-- Whether a lock does not fit into the buffer, as it is stored or with its calls replaced. -/
def TooLong (ev : Evaluator) (actor locked : Dbref) (text : Text) : Prop :=
  ev.limits.bufferLen ≤ Text.bytes text ∨
    ev.limits.bufferLen ≤ Text.bytes (ev.uncut actor locked text)

theorem treeOf_eq (ev : Evaluator) (actor locked : Dbref) (text : Text) :
    ev.treeOf actor locked text =
      .parse (Text.takeBytes (ev.limits.bufferLen - 1) (ev.uncut actor locked text)) := by
  rw [treeOf, expand_eq, uncut]

theorem treeOf_withBuffer (short : Text.bytes (ev.uncut actor locked text) < ev.limits.bufferLen)
    {bufferLen : Nat} (longer : ev.limits.bufferLen ≤ bufferLen) :
    (ev.withBuffer bufferLen).treeOf actor locked text = ev.treeOf actor locked text := by
  rw [treeOf_eq, treeOf_eq, uncut_withBuffer, withBuffer_bufferLen,
    Text.takeBytes_of_bytes_le (by omega), Text.takeBytes_of_bytes_le (by omega)]

/-- Whether a lock has been entered that had to be cut. -/
def HasCut (ev : Evaluator) (state : Evaluation) : Prop :=
  ∃ entry ∈ state.entered, ev.limits.bufferLen ≤ Text.bytes (ev.uncut state.actor entry.1 entry.2)

theorem HasCut.of_keeps {after : Evaluation} (cut : ev.HasCut state)
    (keeps : ev.Keeps state after) : ev.HasCut after := by
  obtain ⟨entry, member, long⟩ := cut
  obtain ⟨opened, entered, -⟩ := keeps.entered
  refine ⟨entry, entered ▸ List.mem_append_left opened member, ?_⟩
  rw [keeps.actor]
  exact long

theorem hasCut_entering
    (long : ev.limits.bufferLen ≤ Text.bytes (ev.uncut state.actor state.locked text)) :
    ev.HasCut (state.entering text) :=
  ⟨_, List.mem_append_right _ (List.mem_singleton_self _), long⟩

/-! ## Longer buffers -/

/-- A longer buffer makes a difference to entering a lock only if some lock is cut. -/
theorem follows_enter_withBuffer {bufferLen : Nat} (longer : ev.limits.bufferLen ≤ bufferLen)
    (levels : Nat) (text : Text) : Follows (ev.EqualWithin levels) ev.HasCut (ev.enter text)
      ((ev.withBuffer bufferLen).enter text) := by
  rintro _ state ⟨rfl, room⟩
  by_cases free : text = []
  · rw [free, enter_nil, enter_nil]
    exact .inr ⟨rfl, rfl, room⟩
  · by_cases full : ev.limits.maxLockDepth ≤ state.depth
    · have fullToo : (ev.withBuffer bufferLen).limits.maxLockDepth ≤ state.depth := by
        rwa [withBuffer_maxLockDepth]
      rw [enter_of_le free full, enter_of_le free fullToo]
      have met : ev.EqualWithin levels { state with depth := state.depth + 1 }
          { state with depth := state.depth + 1 } := ⟨rfl, Nat.le_succ_of_le room⟩
      rcases follows_refuseDepth levels _ _ met with gaveUp | same
      · exact gaveUp.elim
      · exact .inr same
    · have left : state.depth < ev.limits.maxLockDepth := Nat.lt_of_not_le full
      have leftToo : state.depth < (ev.withBuffer bufferLen).limits.maxLockDepth := by
        rwa [withBuffer_maxLockDepth]
      obtain ⟨fewer, rfl⟩ : ∃ fewer, levels = fewer + 1 :=
        Nat.exists_eq_succ_of_ne_zero (by omega)
      rw [enter_of_lt free left, enter_of_lt free leftToo]
      have cutStays (tree : LockExpr) (state : Evaluation) (cut : ev.HasCut state) :
          ev.HasCut (ev.eval ev.enter tree state).2 := cut.of_keeps (.eval ev tree state)
      by_cases short : Text.bytes (ev.uncut state.actor state.locked text) < ev.limits.bufferLen
      · rw [treeOf_withBuffer short longer]
        have inside := (parallel_of_equalWithin bufferLen (follows_enter_withBuffer longer fewer)
          (fun _ _ => id) cutStays).eval (ev.treeOf state.actor state.locked text)
        rcases inside _ _ (.entering text room) with cut | ⟨answer, same, roomLeft⟩
        · exact .inl cut
        · exact .inr ⟨answer, same, by omega⟩
      · exact .inl (cutStays _ _ (hasCut_entering (Nat.le_of_not_lt short)))
termination_by levels

/-- An evaluation in which nothing is cut comes to the same with a longer buffer. -/
theorem evaluate_withBuffer {cache : ReadCache} {zone : Dbref}
    (short : Text.bytes text < ev.limits.bufferLen)
    (whole : ¬ ev.HasCut (ev.evaluate cache actor locked text zone).2) {bufferLen : Nat}
    (longer : ev.limits.bufferLen ≤ bufferLen) :
    (ev.withBuffer bufferLen).evaluate cache actor locked text zone =
      ev.evaluate cache actor locked text zone := by
  by_cases valid : ev.world.isValid locked = true
  · have validToo : (ev.withBuffer bufferLen).world.isValid locked = true := valid
    have shorter : Text.bytes text < (ev.withBuffer bufferLen).limits.bufferLen :=
      Nat.lt_of_lt_of_le short longer
    rw [evaluate_eq_enter valid short] at whole ⊢
    rw [evaluate_eq_enter validToo shorter]
    have room : ev.EqualWithin ev.limits.maxLockDepth (.start actor locked zone cache)
        (.start actor locked zone cache) := ⟨rfl, Nat.le_add_right _ _⟩
    rcases follows_enter_withBuffer longer _ text _ _ room with cut | ⟨answer, same, -⟩
    · exact absurd cut whole
    · exact Prod.ext answer same
  · unfold evaluate
    dsimp only
    rw [withBuffer_world, if_pos (by simpa using valid), if_pos (by simpa using valid)]

theorem evaluate_of_le {cache : ReadCache} {zone : Dbref} (positive : 0 < ev.limits.bufferLen)
    (long : ev.limits.bufferLen ≤ Text.bytes text) :
    (ev.evaluate cache actor locked text zone).1 = false ∧
      (ev.evaluate cache actor locked text zone).2.entered = [] := by
  have nonempty : text ≠ [] := by
    rintro rfl
    exact absurd long (Nat.not_le_of_lt positive)
  obtain ⟨news, told, -⟩ := ev.warnOwner_frame "Warning: lock too long on ".toList []
    (.start actor locked zone cache)
  unfold evaluate refuseLength
  dsimp only
  rw [told]
  by_cases valid : ev.world.isValid locked = true
  · rw [if_neg (by simpa using valid), if_neg (by simpa using nonempty), if_pos long]
    exact ⟨rfl, rfl⟩
  · rw [if_pos (by simpa using valid)]
    exact ⟨rfl, rfl⟩

/-! ## What the limit ensures -/

/-- How an evaluation is held to the length of the buffer. -/
structure HoldsToLength (ev : Evaluator) : Prop where
  /-- The lock that an evaluation starts with is refused if it is too long, and not read. -/
  refused : ∀ cache actor locked text zone, 0 < ev.limits.bufferLen →
    ev.limits.bufferLen ≤ Text.bytes text →
    (ev.evaluate cache actor locked text zone).1 = false ∧
      (ev.evaluate cache actor locked text zone).2.entered = []
  /-- Otherwise it is entered. -/
  starts : ∀ cache actor locked text zone, ev.world.isValid locked →
    Text.bytes text < ev.limits.bufferLen →
    ev.evaluate cache actor locked text zone = ev.enter text (.start actor locked zone cache)
  /-- A lock that is stored within the limit is decided by as much of it as fits once its calls are
  replaced.  A stored lock that is itself too long and is met by an indirection is left out on
  purpose: it should be refused like one that an evaluation starts with, and that it is entered all
  the same is nothing to rely on. -/
  decided : ∀ text state, text ≠ [] → Text.bytes text < ev.limits.bufferLen →
    state.depth < ev.limits.maxLockDepth →
    ev.enter text state = ev.eval ev.enter
      (.parse (Text.takeBytes (ev.limits.bufferLen - 1) (ev.uncut state.actor state.locked text)))
      (state.entering text)
  /-- All of it fits exactly if it has not grown too long. -/
  fits : ∀ actor locked text, 0 < ev.limits.bufferLen →
    (Text.takeBytes (ev.limits.bufferLen - 1) (ev.uncut actor locked text) =
        ev.uncut actor locked text ↔
      Text.bytes (ev.uncut actor locked text) < ev.limits.bufferLen)
  /-- As long as no lock is entered that is too long, a longer buffer makes no difference. -/
  longer : ∀ cache actor locked text zone, Text.bytes text < ev.limits.bufferLen →
    (∀ entry ∈ (ev.evaluate cache actor locked text zone).2.entered,
      ¬ ev.TooLong actor entry.1 entry.2) →
    ∀ bufferLen, ev.limits.bufferLen ≤ bufferLen →
      (ev.withBuffer bufferLen).evaluate cache actor locked text zone =
        ev.evaluate cache actor locked text zone

/-- Every evaluation is held to the length of the buffer, whatever its locks and calls are. -/
theorem evaluation_holdsToLength (ev : Evaluator) : ev.HoldsToLength where
  refused := fun _ _ _ _ _ positive long => evaluate_of_le positive long
  starts := fun _ _ _ _ _ valid short => evaluate_eq_enter valid short
  decided := by
    intro text state nonempty _ room
    rw [enter_of_lt nonempty room, treeOf_eq]
  fits := by
    intro actor locked text positive
    rw [Text.takeBytes_eq_self_iff]
    omega
  longer := by
    intro cache actor locked text zone short none bufferLen longer
    refine evaluate_withBuffer short ?_ longer
    rintro ⟨entry, member, long⟩
    rw [(keeps_evaluate ev cache actor locked text zone).actor] at long
    exact none entry member (.inr long)

/-- A lock whose call grows too long is not refused: the second half of the conjunction is cut. -/
theorem not_refused_of_grown :
    ¬ ∀ (ev : Evaluator) (cache : ReadCache) (actor locked : Dbref) (text : Text) (zone : Dbref),
      2 ≤ ev.limits.bufferLen → ev.world.isValid locked → ev.TooLong actor locked text →
        (ev.evaluate cache actor locked text zone).1 = false := by
  intro claim
  let host := tableHost [⟨['x'], "1      &0".toList, none⟩]
  let ev := Evaluator.ofWorld (.ofLocked []) host ⟨8, 10⟩
  have refused := claim ev ⟨false, []⟩ .system .system "[x]".toList .nothing (by decide)
    (by decide +kernel) (.inr (by decide +kernel))
  have passes : (ev.evaluate ⟨false, []⟩ .system .system "[x]".toList .nothing).1 = true := by
    decide +kernel
  rw [refused] at passes
  cases passes

end Evaluator
end WorldLocks
