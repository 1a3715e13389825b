import WorldLocks.Proofs.Evaluation.Parallel

/-! Every evaluation is bounded and leaves its context in order.  The bound on the recursion of
`enterLock` never refuses a lock by itself: with enough of it, a lock is refused exactly if as many
locks as the limit allows have been met before.  What holds of entered locks is then proved by
induction on how many more may be met. -/

set_option autoImplicit false

namespace WorldLocks

/-- The state in which the tree of a lock that is entered is evaluated. -/
def Evaluation.entering (state : Evaluation) (text : Text) : Evaluation :=
  { state with depth := state.depth + 1, entered := state.entered ++ [(state.locked, text)] }

namespace Evaluator

variable {ev : Evaluator} {state : Evaluation}

/-! ## What a step changes -/

/-- A test looks only at the locked object and the cache, and changes only the cache. -/
theorem test_frame (ev : Evaluator) (object : Dbref) (name pattern : Text) (gated : Bool) :
    ∃ answer : Dbref → ReadCache → Bool × ReadCache, ∀ state : Evaluation,
      ev.test object name pattern gated state =
        ((answer state.locked state.cache).1,
          { state with cache := (answer state.locked state.cache).2 }) := by
  refine ⟨fun locked cache =>
    ((ev.test object name pattern gated (.start .nothing locked .nothing cache)).1,
      (ev.test object name pattern gated (.start .nothing locked .nothing cache)).2.cache),
    fun state => ?_⟩
  unfold test Evaluation.start
  dsimp only
  split
  · rfl
  · split
    · rfl
    · split
      · rfl
      · split <;> rfl

/-- A warning is for the owner of the object that the evaluation started with, if it exists. -/
theorem warnOwner_frame (ev : Evaluator) (before behind : Text) (state : Evaluation) :
    ∃ news, ev.warnOwner before behind state = { state with told := state.told ++ news } ∧
      ∀ message ∈ news, message.1 = ev.world.ownerOf state.origin ∧ ev.world.isValid message.1 := by
  unfold warnOwner
  dsimp only
  split
  · next valid =>
    refine ⟨_, rfl, ?_⟩
    rintro message told
    obtain rfl := List.mem_singleton.mp told
    exact ⟨rfl, valid⟩
  · exact ⟨[], by rw [List.append_nil], by simp⟩

/-- A refusal answers no and warns. -/
theorem refuseDepth_frame (ev : Evaluator) (state : Evaluation) :
    ∃ news, ev.refuseDepth state = (false, { state with told := state.told ++ news }) := by
  obtain ⟨news, behind, -⟩ :=
    ev.warnOwner_frame "Warning: recursion detected in ".toList " lock.".toList state
  exact ⟨news, congrArg (Prod.mk false) behind⟩

theorem refuseNesting_frame (ev : Evaluator) (state : Evaluation) :
    ∃ news, ev.refuseNesting state = (false, { state with told := state.told ++ news }) := by
  obtain ⟨news, behind, -⟩ :=
    ev.warnOwner_frame "Warning: lock nested too deeply on ".toList ['.'] state
  exact ⟨news, congrArg (Prod.mk false) behind⟩

/-! ## Entering without a bound on the recursion -/

/-- Enters a lock with as much recursion as there are locks that may still be met. -/
def enter (ev : Evaluator) : EnterLock := fun text state =>
  ev.enterLock (ev.limits.maxLockDepth - state.depth) text state

/-- Equal states in which a bound on the recursion is no less than the locks still allowed. -/
def EqualWithin (ev : Evaluator) (levels : Nat) (state other : Evaluation) : Prop :=
  other = state ∧ ev.limits.maxLockDepth ≤ levels + state.depth

/-- The evaluator with a buffer of another length. -/
def withBuffer (ev : Evaluator) (bufferLen : Nat) : Evaluator :=
  { ev with limits := { ev.limits with bufferLen := bufferLen } }

@[simp] theorem withBuffer_world (ev : Evaluator) (bufferLen : Nat) :
    (ev.withBuffer bufferLen).world = ev.world := rfl

@[simp] theorem withBuffer_bufferLen (ev : Evaluator) (bufferLen : Nat) :
    (ev.withBuffer bufferLen).limits.bufferLen = bufferLen := rfl

@[simp] theorem withBuffer_maxLockDepth (ev : Evaluator) (bufferLen : Nat) :
    (ev.withBuffer bufferLen).limits.maxLockDepth = ev.limits.maxLockDepth := rfl

/-- How long the buffer is matters to a tree only in the locks that are entered from it. -/
theorem parallel_of_equalWithin {levels : Nat} {enter otherEnter : EnterLock}
    {givenUp : Evaluation → Prop} (bufferLen : Nat)
    (enters : ∀ text, Follows (ev.EqualWithin levels) givenUp (enter text) (otherEnter text))
    (moves : ∀ state locked, givenUp state → givenUp { state with locked := locked })
    (stays : ∀ tree state, givenUp state → givenUp (ev.eval enter tree state).2) :
    Parallel ev (ev.withBuffer bufferLen) enter otherEnter (ev.EqualWithin levels) givenUp where
  actor := by
    rintro _ state ⟨rfl, -⟩
    rfl
  resolves := by
    rintro _ state ⟨rfl, -⟩ name
    rfl
  compares := by
    rintro _ state ⟨rfl, -⟩ object kind
    cases kind <;> rfl
  sees := by
    rintro _ state ⟨rfl, -⟩ object
    rfl
  tests := by
    rintro object name pattern gated _ state ⟨rfl, room⟩ -
    obtain ⟨answer, acts⟩ := ev.test_frame object name pattern gated
    exact .inr ⟨rfl, rfl, by rw [acts]; exact room⟩
  refuses := by
    rintro _ state ⟨rfl, room⟩
    obtain ⟨news, refuses⟩ := ev.refuseNesting_frame state
    exact .inr ⟨rfl, rfl, by rw [refuses]; exact room⟩
  indirect := by
    rintro object _ state ⟨rfl, room⟩
    rcases enters (ev.read object (.ofBuiltin .lock) state).1
      { (ev.read object (.ofBuiltin .lock) state).2 with locked := object } _ ⟨rfl, room⟩
      with gaveUp | ⟨answer, same, roomLeft⟩
    · exact .inl (moves _ state.locked gaveUp)
    · refine .inr ⟨answer, ?_, roomLeft⟩
      exact congrArg (fun behind : Evaluation => { behind with locked := state.locked }) same
  stays := stays

@[simp] theorem enterLock_nil (levels : Nat) (state : Evaluation) :
    ev.enterLock levels [] state = (true, state) := by
  unfold enterLock
  rfl

theorem enterLock_of_le {text : Text} (locked : text ≠ []) (levels : Nat)
    (full : ev.limits.maxLockDepth ≤ state.depth) :
    ev.enterLock levels text state = ev.refuseDepth { state with depth := state.depth + 1 } := by
  unfold enterLock
  dsimp only
  rw [if_neg (by simpa using locked)]
  cases levels with
  | zero => rfl
  | succ levels => exact if_pos (Nat.lt_succ_of_le full)

theorem enterLock_of_lt {text : Text} (locked : text ≠ []) (levels : Nat)
    (room : state.depth < ev.limits.maxLockDepth) :
    ev.enterLock (levels + 1) text state =
      ev.eval (ev.enterLock levels) (ev.treeOf state.actor state.locked text)
        (state.entering text) := by
  unfold enterLock
  dsimp only
  rw [if_neg (by simpa using locked)]
  exact if_neg (by omega)

theorem EqualWithin.entering {levels : Nat} (text : Text)
    (room : ev.limits.maxLockDepth ≤ levels + 1 + state.depth) :
    ev.EqualWithin levels (state.entering text) (state.entering text) :=
  ⟨rfl, by rw [Nat.add_right_comm] at room; exact room⟩

theorem follows_refuseDepth (levels : Nat) :
    Follows (ev.EqualWithin levels) (fun _ => False) ev.refuseDepth ev.refuseDepth := by
  rintro _ state ⟨rfl, room⟩
  obtain ⟨news, refuses⟩ := ev.refuseDepth_frame state
  exact .inr ⟨rfl, rfl, by rw [refuses]; exact room⟩

/-- More recursion than there are locks still allowed makes no difference. -/
theorem follows_enterLock_add (levels extra : Nat) (text : Text) :
    Follows (ev.EqualWithin levels) (fun _ => False) (ev.enterLock levels text)
      (ev.enterLock (levels + extra) text) := by
  rintro _ state ⟨rfl, room⟩
  by_cases free : text = []
  · rw [free, enterLock_nil, enterLock_nil]
    exact .inr ⟨rfl, rfl, room⟩
  · by_cases full : ev.limits.maxLockDepth ≤ state.depth
    · rw [enterLock_of_le free _ full, enterLock_of_le free _ full]
      exact follows_refuseDepth levels _ _ ⟨rfl, Nat.le_succ_of_le room⟩
    · obtain ⟨fewer, rfl⟩ : ∃ fewer, levels = fewer + 1 :=
        Nat.exists_eq_succ_of_ne_zero (by omega)
      rw [Nat.add_right_comm, enterLock_of_lt free _ (by omega), enterLock_of_lt free _ (by omega)]
      have inside := (parallel_of_equalWithin ev.limits.bufferLen
        (follows_enterLock_add fewer extra) (fun _ _ => id) fun _ _ => id).eval
        (ev.treeOf state.actor state.locked text)
      rcases inside _ _ (.entering text room) with gaveUp | ⟨answer, same, roomLeft⟩
      · exact .inl gaveUp
      · exact .inr ⟨answer, same, by omega⟩
termination_by levels

theorem enterLock_eq_enter {levels : Nat} (text : Text)
    (room : ev.limits.maxLockDepth ≤ levels + state.depth) :
    ev.enterLock levels text state = ev.enter text state := by
  obtain ⟨extra, rfl⟩ : ∃ extra, levels = ev.limits.maxLockDepth - state.depth + extra :=
    Nat.exists_eq_add_of_le (by omega)
  have least : ev.EqualWithin (ev.limits.maxLockDepth - state.depth) state state := by
    exact ⟨rfl, by omega⟩
  obtain gaveUp | ⟨answer, same, -⟩ := follows_enterLock_add _ extra text state state least
  · exact gaveUp.elim
  · exact Prod.ext answer same

@[simp] theorem enter_nil (state : Evaluation) : ev.enter [] state = (true, state) :=
  enterLock_nil _ state

theorem enter_of_le {text : Text} (locked : text ≠ [])
    (full : ev.limits.maxLockDepth ≤ state.depth) :
    ev.enter text state = ev.refuseDepth { state with depth := state.depth + 1 } :=
  enterLock_of_le locked _ full

theorem enter_of_lt {text : Text} (locked : text ≠ [])
    (room : state.depth < ev.limits.maxLockDepth) :
    ev.enter text state =
      ev.eval ev.enter (ev.treeOf state.actor state.locked text) (state.entering text) := by
  obtain ⟨levels, left⟩ : ∃ levels, ev.limits.maxLockDepth - state.depth = levels + 1 :=
    Nat.exists_eq_succ_of_ne_zero (by omega)
  have enters (text : Text) : Follows (ev.EqualWithin levels) (fun _ => False)
      (ev.enterLock levels text) (ev.enter text) := by
    rintro _ state ⟨rfl, room⟩
    rw [← enterLock_eq_enter text room]
    exact follows_enterLock_add levels 0 text _ _ ⟨rfl, room⟩
  have inside := (parallel_of_equalWithin ev.limits.bufferLen enters (fun _ _ => id)
    fun _ _ => id).eval (ev.treeOf state.actor state.locked text)
  unfold enter at inside ⊢
  rw [left, enterLock_of_lt locked levels room]
  have opened : ev.EqualWithin levels (state.entering text) (state.entering text) :=
    .entering text (by omega)
  rcases inside _ _ opened with gaveUp | ⟨answer, same, -⟩
  · exact gaveUp.elim
  · exact (Prod.ext answer same).symm

/-- What holds of entering an empty lock, of refusing one and of entering one, given that it holds
inside, holds of entering any lock. -/
theorem enter_induction (holds : Text → Evaluation → Bool × Evaluation → Prop)
    (empty : ∀ state, holds [] state (true, state))
    (refused : ∀ text state, text ≠ [] → ev.limits.maxLockDepth ≤ state.depth →
      holds text state (ev.refuseDepth { state with depth := state.depth + 1 }))
    (entered : ∀ text state, text ≠ [] → state.depth < ev.limits.maxLockDepth →
      (∀ inner behind, state.depth < behind.depth → holds inner behind (ev.enter inner behind)) →
      holds text state
        (ev.eval ev.enter (ev.treeOf state.actor state.locked text) (state.entering text)))
    (text : Text) (state : Evaluation) : holds text state (ev.enter text state) := by
  by_cases free : text = []
  · rw [free, enter_nil]
    exact empty state
  · by_cases full : ev.limits.maxLockDepth ≤ state.depth
    · rw [enter_of_le free full]
      exact refused text state free full
    · rw [enter_of_lt free (by omega)]
      refine entered text state free (by omega) fun inner behind deeper => ?_
      exact enter_induction holds empty refused entered inner behind
termination_by ev.limits.maxLockDepth - state.depth

/-! ## The context -/

/-- What evaluating a part of a lock keeps: the context is put back, no count goes down, warnings go
only to the owner of the object that the evaluation started with, and as many locks are entered as
are met while the limit lasts. -/
structure Keeps (ev : Evaluator) (before after : Evaluation) : Prop where
  actor : after.actor = before.actor
  locked : after.locked = before.locked
  origin : after.origin = before.origin
  zone : after.zone = before.zone
  depth : before.depth ≤ after.depth
  told : ∃ news, after.told = before.told ++ news ∧
    ∀ message ∈ news, message.1 = ev.world.ownerOf before.origin ∧ ev.world.isValid message.1
  entered : ∃ opened, after.entered = before.entered ++ opened ∧
    opened.length + min before.depth ev.limits.maxLockDepth =
      min after.depth ev.limits.maxLockDepth

variable {enter : EnterLock} {floor : Nat} {before middle after : Evaluation}

theorem Keeps.refl (ev : Evaluator) (state : Evaluation) : ev.Keeps state state where
  actor := rfl
  locked := rfl
  origin := rfl
  zone := rfl
  depth := Nat.le_refl _
  told := ⟨[], by rw [List.append_nil], by simp⟩
  entered := ⟨[], by rw [List.append_nil], Nat.zero_add _⟩

theorem Keeps.trans (first : ev.Keeps before middle) (later : ev.Keeps middle after) :
    ev.Keeps before after where
  actor := later.actor.trans first.actor
  locked := later.locked.trans first.locked
  origin := later.origin.trans first.origin
  zone := later.zone.trans first.zone
  depth := Nat.le_trans first.depth later.depth
  told := by
    obtain ⟨news, told, fit⟩ := first.told
    obtain ⟨more, toldLater, fitLater⟩ := later.told
    refine ⟨news ++ more, by rw [toldLater, told, List.append_assoc], fun message member => ?_⟩
    rcases List.mem_append.mp member with early | late
    · exact fit message early
    · exact first.origin ▸ fitLater message late
  entered := by
    obtain ⟨opened, entered, count⟩ := first.entered
    obtain ⟨more, enteredLater, countLater⟩ := later.entered
    refine ⟨opened ++ more, by rw [enteredLater, entered, List.append_assoc], ?_⟩
    rw [List.length_append]
    omega

theorem Keeps.test (ev : Evaluator) (object : Dbref) (name pattern : Text) (gated : Bool)
    (state : Evaluation) : ev.Keeps state (ev.test object name pattern gated state).2 := by
  obtain ⟨answer, acts⟩ := ev.test_frame object name pattern gated
  rw [acts]
  exact { Keeps.refl ev state with }

theorem Keeps.warnOwner (ev : Evaluator) (before behind : Text) (state : Evaluation) :
    ev.Keeps state (ev.warnOwner before behind state) := by
  obtain ⟨news, told, fit⟩ := ev.warnOwner_frame before behind state
  rw [told]
  exact { Keeps.refl ev state with told := ⟨news, rfl, fit⟩ }

theorem Keeps.refuseDepth (full : ev.limits.maxLockDepth ≤ state.depth) :
    ev.Keeps state (ev.refuseDepth { state with depth := state.depth + 1 }).2 := by
  refine Keeps.trans ?_ (.warnOwner ev _ _ _)
  refine { Keeps.refl ev state with depth := Nat.le_succ _, entered := ⟨[], ?_, ?_⟩ }
  · rw [List.append_nil]
  · rw [Nat.min_eq_right full, Nat.min_eq_right (Nat.le_succ_of_le full), List.length_nil,
      Nat.zero_add]

/-- A refusal shows in the depth. -/
theorem lt_depth_of_refuseDepth (full : ev.limits.maxLockDepth ≤ state.depth) :
    ev.limits.maxLockDepth < (ev.refuseDepth { state with depth := state.depth + 1 }).2.depth := by
  obtain ⟨news, refuses⟩ := ev.refuseDepth_frame { state with depth := state.depth + 1 }
  rw [refuses]
  exact Nat.lt_succ_of_le full

theorem room_of_depth_enter_le {text : Text} (nonempty : text ≠ [])
    (few : (ev.enter text state).2.depth ≤ ev.limits.maxLockDepth) :
    state.depth < ev.limits.maxLockDepth := by
  apply Nat.lt_of_not_le
  intro full
  rw [enter_of_le nonempty full] at few
  exact absurd few (Nat.not_le_of_lt (lt_depth_of_refuseDepth full))

theorem Keeps.entering (text : Text) (room : state.depth < ev.limits.maxLockDepth) :
    ev.Keeps state (state.entering text) := by
  refine { Keeps.refl ev state with depth := Nat.le_succ _, entered := ⟨_, rfl, ?_⟩ }
  rw [Nat.min_eq_left (Nat.le_of_lt room), List.length_singleton, Nat.add_comm]
  exact (Nat.min_eq_left room).symm

/-- An indirection puts the locked object back. -/
theorem Keeps.indirect
    (enters : ∀ text state, floor ≤ state.depth → ev.Keeps state (enter text state).2)
    (object : Dbref) (above : floor ≤ state.depth) :
    ev.Keeps state (ev.indirect enter object state).2 := by
  have inside := enters (ev.read object (.ofBuiltin .lock) state).1
    { (ev.read object (.ofBuiltin .lock) state).2 with locked := object } above
  exact ⟨inside.actor, rfl, inside.origin, inside.zone, inside.depth, inside.told, inside.entered⟩

mutual

theorem keeps_eval (enters : ∀ text state, floor ≤ state.depth →
    ev.Keeps state (enter text state).2) :
    ∀ (tree : LockExpr) (state : Evaluation), floor ≤ state.depth →
      ev.Keeps state (ev.eval enter tree state).2
  | .or terms, state, above => by
      unfold eval
      exact keeps_evalAny enters terms state above
  | .and terms, state, above => by
      unfold eval
      exact keeps_evalAll enters terms state above
  | .not inner, state, above => by
      unfold eval
      exact keeps_eval enters inner state above
  | .number value, state, _ => by
      unfold eval
      exact .refl ev state
  | .attrTest name pattern, state, _ => by
      unfold eval
      exact .test ev state.actor name pattern false state
  | .ref kind name, state, _ => by
      unfold eval
      cases ev.resolve state.locked name <;> exact .refl ev state
  | .indirect name, state, above => by
      unfold eval
      cases ev.resolve state.locked name with
      | none => exact .refl ev state
      | some object =>
          dsimp only
          split
          · exact .indirect enters object above
          · exact .refl ev state
  | .indirectLock name, state, above => by
      unfold eval
      cases ev.resolve state.locked name with
      | none => exact .refl ev state
      | some object => exact .indirect enters object above
  | .indirectAttr target test, state, _ => by
      unfold eval
      split
      · exact .test ev _ _ _ true state
      · exact .refl ev state
  | .tooDeep, state, _ => by
      unfold eval
      exact .warnOwner ev _ _ state

theorem keeps_evalAny (enters : ∀ text state, floor ≤ state.depth →
    ev.Keeps state (enter text state).2) :
    ∀ (terms : List LockExpr) (state : Evaluation), floor ≤ state.depth →
      ev.Keeps state (ev.evalAny enter terms state).2
  | [], state, _ => by
      unfold evalAny
      exact .refl ev state
  | term :: later, state, above => by
      unfold evalAny
      have first := keeps_eval enters term state above
      exact first.trans (keeps_evalAny enters later _ (Nat.le_trans above first.depth))

theorem keeps_evalAll (enters : ∀ text state, floor ≤ state.depth →
    ev.Keeps state (enter text state).2) :
    ∀ (terms : List LockExpr) (state : Evaluation), floor ≤ state.depth →
      ev.Keeps state (ev.evalAll enter terms state).2
  | [], state, _ => by
      unfold evalAll
      exact .refl ev state
  | term :: later, state, above => by
      unfold evalAll
      have first := keeps_eval enters term state above
      exact first.trans (keeps_evalAll enters later _ (Nat.le_trans above first.depth))

end

theorem keeps_enter (text : Text) (state : Evaluation) :
    ev.Keeps state (ev.enter text state).2 := by
  apply enter_induction (fun _ state result => ev.Keeps state result.2)
  case empty => exact fun state => .refl ev state
  case refused => exact fun _ _ _ full => .refuseDepth full
  case entered =>
    intro text state _ room inside
    refine (Keeps.entering text room).trans ?_
    exact keeps_eval (fun inner behind deeper => inside inner behind deeper) _ _ (Nat.le_refl _)

theorem Keeps.eval (ev : Evaluator) (tree : LockExpr) (state : Evaluation) :
    ev.Keeps state (ev.eval ev.enter tree state).2 :=
  keeps_eval (fun text state _ => keeps_enter text state) tree state (Nat.zero_le _)

theorem Keeps.evalAny (ev : Evaluator) (terms : List LockExpr) (state : Evaluation) :
    ev.Keeps state (ev.evalAny ev.enter terms state).2 :=
  keeps_evalAny (fun text state _ => keeps_enter text state) terms state (Nat.zero_le _)

theorem Keeps.evalAll (ev : Evaluator) (terms : List LockExpr) (state : Evaluation) :
    ev.Keeps state (ev.evalAll ev.enter terms state).2 :=
  keeps_evalAll (fun text state _ => keeps_enter text state) terms state (Nat.zero_le _)

/-- How an evaluation is bounded. -/
structure InOrder (ev : Evaluator) : Prop where
  /-- A lock that is not too long is entered as the first one. -/
  starts : ∀ cache actor locked text zone, ev.world.isValid locked →
    Text.bytes text < ev.limits.bufferLen →
    ev.evaluate cache actor locked text zone = ev.enter text (.start actor locked zone cache)
  /-- An empty lock passes. -/
  passes : ∀ state, ev.enter [] state = (true, state)
  /-- A lock that is met while the limit lasts is read as a tree, which is evaluated. -/
  enters : ∀ text state, text ≠ [] → state.depth < ev.limits.maxLockDepth →
    ev.enter text state =
      ev.eval ev.enter (ev.treeOf state.actor state.locked text) (state.entering text)
  /-- Every further lock is refused, and not read. -/
  refuses : ∀ text state, text ≠ [] → ev.limits.maxLockDepth ≤ state.depth →
    (ev.enter text state).1 = false ∧ (ev.enter text state).2.entered = state.entered
  /-- Over a whole evaluation no more locks are read than the limit allows. -/
  entered_le : ∀ cache actor locked text zone,
    (ev.evaluate cache actor locked text zone).2.entered.length ≤ ev.limits.maxLockDepth
  /-- Only the owner of the object that the evaluation started with is told anything. -/
  told_owner : ∀ cache actor locked text zone,
    ∀ message ∈ (ev.evaluate cache actor locked text zone).2.told,
      message.1 = ev.world.ownerOf locked ∧ ev.world.isValid message.1
  /-- Every part of a lock leaves the context in order. -/
  keeps : ∀ tree state, ev.Keeps state (ev.eval ev.enter tree state).2

theorem evaluate_eq_enter {cache : ReadCache} {actor locked : Dbref} {text : Text} {zone : Dbref}
    (valid : ev.world.isValid locked) (short : Text.bytes text < ev.limits.bufferLen) :
    ev.evaluate cache actor locked text zone = ev.enter text (.start actor locked zone cache) := by
  unfold evaluate
  dsimp only
  rw [if_neg (by simpa using valid)]
  by_cases free : text = []
  · rw [free, enter_nil]
    rfl
  · rw [if_neg (by simpa using free), if_neg (by omega)]
    rfl

theorem keeps_evaluate (ev : Evaluator) (cache : ReadCache) (actor locked : Dbref) (text : Text)
    (zone : Dbref) : ev.Keeps (.start actor locked zone cache)
      (ev.evaluate cache actor locked text zone).2 := by
  by_cases valid : ev.world.isValid locked = true
  · by_cases short : Text.bytes text < ev.limits.bufferLen
    · rw [evaluate_eq_enter valid short]
      exact keeps_enter text _
    · unfold evaluate
      dsimp only
      rw [if_neg (by simpa using valid)]
      split
      · exact .refl ev _
      · rw [if_pos (by omega)]
        exact .warnOwner ev _ _ _
  · unfold evaluate
    dsimp only
    rw [if_pos (by simpa using valid)]
    exact .refl ev _

/-- Every evaluation is bounded, whatever the locks are that it meets. -/
theorem evaluation_inOrder (ev : Evaluator) : ev.InOrder where
  starts := fun _ _ _ _ _ valid short => evaluate_eq_enter valid short
  passes := enter_nil
  enters := fun _ _ locked room => enter_of_lt locked room
  refuses := by
    intro text state locked full
    obtain ⟨news, refuses⟩ := ev.refuseDepth_frame { state with depth := state.depth + 1 }
    rw [enter_of_le locked full, refuses]
    exact ⟨rfl, rfl⟩
  entered_le := by
    intro cache actor locked text zone
    obtain ⟨opened, entered, count⟩ := (keeps_evaluate ev cache actor locked text zone).entered
    rw [entered]
    change opened.length ≤ _
    change opened.length + min 0 _ = _ at count
    omega
  told_owner := by
    intro cache actor locked text zone message member
    obtain ⟨news, told, fit⟩ := (keeps_evaluate ev cache actor locked text zone).told
    rw [told] at member
    exact fit message member
  keeps := Keeps.eval ev

end Evaluator
end WorldLocks
