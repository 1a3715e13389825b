import WorldLocks.Proofs.Evaluation.Meaning
import WorldLocks.Proofs.Evaluation.Verdict
import WorldLocks.Proofs.Expansion
import WorldLocks.Proofs.Growth
import WorldLocks.Proofs.Parsing.Spacing
import WorldLocks.Proofs.Parts.RoundTrip
import WorldLocks.Proofs.References.Exact

/-! An indirection to an object by its literal comes to what the object's own lock comes to.  The
inner evaluation starts deeper and warns another owner, which makes no difference to its answer as
long as not too many locks are met. -/

set_option autoImplicit false

namespace WorldLocks

open Cursor

/-! ## The text of an indirection -/

namespace LockExpr

variable {word : Text}

theorem parse_indirectLock (plain : IsObjectWord word)
    (solid : ∀ c ∈ word, Text.isBlank c = false) :
    parse ('@' :: '(' :: (word ++ [')'])) = .indirectLock word := by
  have named : IsName word :=
    ⟨Text.trim_of_no_blanks solid, fun c member => (plain.unmarked c member).2.1⟩
  have wellFormed : (LockExpr.indirectLock word).WellFormed := by
    refine ⟨⟨?_, ?_, ?_⟩, ?_⟩ <;> simp [Unmarked, nodes, descendants, nesting, Tidy, named]
  simpa [render] using parse_render wellFormed

end LockExpr
namespace Evaluator

variable {ev : Evaluator} {floor : Nat}

/-! ## Depth -/

/-- Two states that see the same, from some depth on, of which the second is no deeper. -/
structure NoDeeper (floor : Nat) (state other : Evaluation) : Prop where
  above : floor ≤ state.depth
  depth : other.depth ≤ state.depth
  actor : other.actor = state.actor
  locked : other.locked = state.locked
  zone : other.zone = state.zone
  cache : other.cache = state.cache

def MetTooMany (ev : Evaluator) (state : Evaluation) : Prop :=
  ev.limits.maxLockDepth < state.depth

theorem parallel_of_noDeeper
    (enters : ∀ text, Follows (NoDeeper floor) ev.MetTooMany (ev.enter text) (ev.enter text)) :
    Parallel ev ev ev.enter ev.enter (NoDeeper floor) ev.MetTooMany where
  actor := fun _ _ same => same.actor
  resolves := by
    intro state other same name
    rw [same.locked]
  compares := by
    intro state other same object kind
    unfold compare
    rw [same.actor, same.zone]
  sees := by
    intro state other same object
    rw [same.locked]
  tests := by
    intro object name pattern gated state other same _
    obtain ⟨answer, acts⟩ := ev.test_frame object name pattern gated
    rw [acts state, acts other, same.locked, same.cache]
    exact .inr ⟨rfl, { same with locked := rfl, cache := rfl }⟩
  refuses := by
    intro state other same
    obtain ⟨news, refuses⟩ := ev.refuseNesting_frame state
    obtain ⟨others, refusesOther⟩ := ev.refuseNesting_frame other
    rw [refuses, refusesOther]
    exact .inr ⟨rfl, { same with }⟩
  indirect := by
    intro object state other same
    have read : ev.read object (.ofBuiltin .lock) other =
        ((ev.read object (.ofBuiltin .lock) state).1,
          { other with cache := (ev.read object (.ofBuiltin .lock) state).2.cache }) := by
      unfold Evaluator.read
      rw [same.cache]
    unfold indirect
    rw [read]
    rcases enters (ev.read object (.ofBuiltin .lock) state).1
      { (ev.read object (.ofBuiltin .lock) state).2 with locked := object }
      { other with
        cache := (ev.read object (.ofBuiltin .lock) state).2.cache
        locked := object }
      { same with locked := rfl, cache := rfl } with gaveUp | ⟨answer, behind⟩
    · exact .inl gaveUp
    · exact .inr ⟨answer, { behind with locked := same.locked }⟩
  stays := by
    intro tree state gaveUp
    exact Nat.lt_of_lt_of_le gaveUp (Keeps.eval ev tree state).depth

/-- Starting less deep makes no difference as long as not too many locks are met. -/
theorem follows_enter_of_noDeeper (floor : Nat) (text : Text) :
    Follows (NoDeeper floor) ev.MetTooMany (ev.enter text) (ev.enter text) := by
  refine fun state other => enter_induction (fun text state result => ∀ floor other,
    NoDeeper floor state other → ev.MetTooMany result.2 ∨
      (ev.enter text other).1 = result.1 ∧ NoDeeper floor result.2 (ev.enter text other).2)
    ?empty ?refused ?entered text state floor other
  case empty =>
    intro state floor other same
    rw [enter_nil]
    exact .inr ⟨rfl, same⟩
  case refused => exact fun _ _ _ full _ _ _ => .inl (lt_depth_of_refuseDepth full)
  case entered =>
    intro text state nonempty room inside floor other same
    have deeper : NoDeeper (state.depth + 1) (state.entering text) (other.entering text) :=
      { same with above := Nat.le_refl _, depth := Nat.succ_le_succ same.depth }
    have enters (inner : Text) : Follows (NoDeeper (state.depth + 1)) ev.MetTooMany
        (ev.enter inner) (ev.enter inner) :=
      fun behind other same => inside inner behind same.above _ other same
    rw [enter_of_lt nonempty (Nat.lt_of_le_of_lt same.depth room), same.actor, same.locked]
    rcases (parallel_of_noDeeper enters).eval (ev.treeOf state.actor state.locked text) _ _ deeper
      with gaveUp | ⟨answer, behind⟩
    · exact .inl gaveUp
    · have above := Nat.le_trans same.above (Nat.le_of_lt behind.above)
      exact .inr ⟨answer, { behind with above := above }⟩

/-! ## Indirections -/

theorem treeOf_indirectLock {index : Nat} (ev : Evaluator)
    (short : Text.bytes ("@(".toList ++ (Dbref.ofIndex index).literal ++ [')']) <
      ev.limits.bufferLen) (actor locked : Dbref) :
    ev.treeOf actor locked ("@(".toList ++ (Dbref.ofIndex index).literal ++ [')']) =
      .indirectLock (Dbref.ofIndex index).literal := by
  have word := isObjectWord_literal (.ofIndex index)
  have plain : '[' ∉ "@(".toList ++ (Dbref.ofIndex index).literal ++ [')'] := by
    intro member
    rcases List.mem_append.mp member with inside | last
    · rcases List.mem_append.mp inside with first | named
      · exact absurd first (by decide)
      · exact (word.unmarked _ named).2.2 rfl
    · exact absurd last (by decide)
  unfold treeOf
  rw [expand_of_not_mem plain short]
  exact LockExpr.parse_indirectLock word fun _ member => Dbref.isBlank_of_mem_literal member

theorem eval_indirectLock {enter : EnterLock} {name : Text} {object : Dbref} {state : Evaluation}
    (resolved : ev.resolve state.locked name = some object) :
    ev.eval enter (.indirectLock name) state = ev.indirect enter object state := by
  unfold eval
  rw [resolved]

/-- A lock that is an indirection only hands on to the lock of the object that it asks. -/
theorem enter_indirectLock {index : Nat} (state : Evaluation)
    (short : Text.bytes ("@(".toList ++ (Dbref.ofIndex index).literal ++ [')']) <
      ev.limits.bufferLen)
    (resolved : ev.resolve state.locked (Dbref.ofIndex index).literal = some (.ofIndex index))
    (room : state.depth < ev.limits.maxLockDepth) :
    ev.enter ("@(".toList ++ (Dbref.ofIndex index).literal ++ [')']) state =
      ev.indirect ev.enter (.ofIndex index)
        (state.entering ("@(".toList ++ (Dbref.ofIndex index).literal ++ [')'])) := by
  rw [enter_of_lt (by simp) room, treeOf_indirectLock ev short]
  exact eval_indirectLock resolved

/-- An indirection to an object comes to what its own lock comes to, unless too many locks are
met. -/
theorem evaluate_indirectLock {cache : ReadCache} {actor locked object zone : Dbref}
    (valid : ev.world.isValid locked) (existing : ev.world.isValid object)
    (named : ev.matcher locked object.literal = .ok (.found object))
    (short : Text.bytes ("@(".toList ++ object.literal ++ [')']) < ev.limits.bufferLen)
    (shortLock : Text.bytes (ev.world.readWith cache object (.ofBuiltin .lock)).1 <
      ev.limits.bufferLen)
    (few : (ev.evaluate cache actor locked ("@(".toList ++ object.literal ++ [')']) zone).2.depth ≤
      ev.limits.maxLockDepth) :
    (ev.evaluate cache actor locked ("@(".toList ++ object.literal ++ [')']) zone).1 =
      (ev.evaluateAttr cache actor object (.ofBuiltin .lock) zone).1 := by
  obtain ⟨index, rfl, -⟩ := World.exists_index_of_isValid existing
  have resolved : ev.resolve locked (Dbref.ofIndex index).literal = some (.ofIndex index) := by
    unfold resolve
    rw [named]
    exact if_pos existing
  rw [evaluate_eq_enter valid short] at few ⊢
  have hands := enter_indirectLock (.start actor locked zone cache) short resolved
    (room_of_depth_enter_le (by simp) few)
  rw [hands] at few ⊢
  unfold evaluateAttr
  dsimp only
  rw [evaluate_eq_enter existing shortLock]
  -- The own lock is entered one level down there and at the top here.
  let opened := (Evaluation.start actor locked zone cache).entering
    ("@(".toList ++ (Dbref.ofIndex index).literal ++ [')'])
  rcases follows_enter_of_noDeeper 0 (ev.world.readWith cache (.ofIndex index) _).1
    { (ev.read (.ofIndex index) (.ofBuiltin .lock) opened).2 with locked := .ofIndex index }
    (.start actor (.ofIndex index) zone (ev.world.readWith cache (.ofIndex index) _).2)
    ⟨Nat.zero_le _, Nat.zero_le _, rfl, rfl, rfl, rfl⟩ with many | ⟨answer, -⟩
  · exact absurd few (Nat.not_le_of_lt many)
  · exact answer.symm

end Evaluator

namespace Inquiry

/-- An evaluation that does not meet too many locks comes to what the lock means, and an indirection
to an object by its literal then comes to what the object's own lock comes to. -/
theorem evaluate_meaning {allowed : Operation → Prop} {q : Inquiry} {locked : Dbref}
    (reachable : World.Reachable allowed q.ev.world) (valid : q.ev.world.isValid locked) :
    (∀ text, Text.bytes text < q.ev.limits.bufferLen →
      (q.ev.evaluate q.cache q.actor locked text q.zone).2.depth ≤ q.ev.limits.maxLockDepth →
        ∀ passed, q.Means locked text passed ↔
          passed = (q.ev.evaluate q.cache q.actor locked text q.zone).1) ∧
      ∀ object, q.ev.world.isValid object →
        (q.ev.matcher = q.ev.world.matcher ∨
          q.ev.matcher locked object.literal = .ok (.found object)) →
        Text.bytes (q.lockOf object) < q.ev.limits.bufferLen →
        Text.bytes ("@(".toList ++ object.literal ++ [')']) < q.ev.limits.bufferLen →
        (q.ev.evaluate q.cache q.actor locked ("@(".toList ++ object.literal ++ [')'])
          q.zone).2.depth ≤ q.ev.limits.maxLockDepth →
        (q.ev.evaluate q.cache q.actor locked ("@(".toList ++ object.literal ++ [')']) q.zone).1 =
          (q.ev.evaluateAttr q.cache q.actor object (.ofBuiltin .lock) q.zone).1 := by
  constructor
  · intro text short few passed
    exact means_iff reachable.covered valid short few passed
  · intro object existing names shortLock short few
    have named : q.ev.matcher locked object.literal = .ok (.found object) := by
      rcases names with own | finds
      · rw [own]
        exact World.matcher_literal reachable.fits existing locked
      · exact finds
    exact Evaluator.evaluate_indirectLock valid existing named short shortLock few

theorem reachable_ofLocked (lock : Text) : World.Reachable (fun _ => True) (.ofLocked lock) :=
  ⟨_, .empty {} 0,
    (World.Leads.refl.perform (.create "door".toList .thing .nothing .nothing) trivial).perform
      (.setValue .system (.ofBuiltin .lock) lock) trivial⟩

/-- A lock that asks for the door's own lock twice, once below two negations. -/
theorem evaluate_meaning_ofLocked :
    let q : Inquiry := ⟨.ofWorld (.ofLocked ['1']) passthrough {}, .blank true, .system, .nothing⟩
    q.Means .system "@(#0)&!(0|!@#0)".toList true ∧
      (q.ev.evaluate q.cache q.actor .system "@(#0)".toList q.zone).1 =
        (q.ev.evaluateAttr q.cache q.actor .system (.ofBuiltin .lock) q.zone).1 := by
  intro q
  have meaning := @evaluate_meaning (fun _ => True) q .system (reachable_ofLocked ['1'])
    (by decide +kernel)
  exact ⟨(meaning.1 _ (by decide +kernel) (by decide +kernel) true).mpr (by decide +kernel),
    meaning.2 .system (by decide +kernel) (.inl rfl) (by decide +kernel) (by decide +kernel)
      (by decide +kernel)⟩

end Inquiry
end WorldLocks
