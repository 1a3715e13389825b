import WorldLocks.Lock.Evaluate

/-! Two evaluations of one tree, side by side.  Evaluations that start in related states and meet
related locks come to the same answer in related states, unless the first one has given up
midway. -/

set_option autoImplicit false

namespace WorldLocks

/-- Whether steps from related states come to the same answer in related states, unless the first
one gives up. -/
def Follows {α : Type} (related : Evaluation → Evaluation → Prop) (givenUp : Evaluation → Prop)
    (first second : EvalStep α) : Prop :=
  ∀ state other, related state other →
    givenUp (first state).2 ∨
      (second other).1 = (first state).1 ∧ related (first state).2 (second other).2

/-- Two steps in a row, of which the second one does not take back that the first has given up. -/
theorem Follows.andThen {related : Evaluation → Evaluation → Prop} {givenUp : Evaluation → Prop}
    {first second rest others : EvalStep Bool} (combine : Bool → Bool → Bool)
    (follows : Follows related givenUp first second)
    (followsLater : Follows related givenUp rest others)
    (stays : ∀ state, givenUp state → givenUp (rest state).2) :
    Follows related givenUp
      (fun state => (combine (first state).1 (rest (first state).2).1, (rest (first state).2).2))
      (fun state =>
        (combine (second state).1 (others (second state).2).1, (others (second state).2).2)) := by
  intro state other start
  rcases follows state other start with gaveUp | ⟨answer, behind⟩
  · exact .inl (stays _ gaveUp)
  · rcases followsLater _ _ behind with gaveUp | ⟨answerLater, last⟩
    · exact .inl gaveUp
    · refine .inr ⟨?_, last⟩
      dsimp only
      rw [answer, answerLater]

/-- Two evaluators that see the same in related states and enter related locks. -/
structure Parallel (one two : Evaluator) (enter otherEnter : EnterLock)
    (related : Evaluation → Evaluation → Prop) (givenUp : Evaluation → Prop) : Prop where
  actor : ∀ state other, related state other → other.actor = state.actor
  resolves : ∀ state other, related state other → ∀ name,
    two.resolve other.locked name = one.resolve state.locked name
  compares : ∀ state other, related state other → ∀ object kind,
    two.compare other object kind = one.compare state object kind
  sees : ∀ state other, related state other → ∀ object,
    two.canSee other.locked object (.ofBuiltin .lock) =
      one.canSee state.locked object (.ofBuiltin .lock)
  /-- Only the one who wants to pass is tested without regard to what the lock may see. -/
  tests : ∀ object name pattern gated state other, related state other →
    (gated = false → object = state.actor) →
      givenUp (one.test object name pattern gated state).2 ∨
        (two.test object name pattern gated other).1 = (one.test object name pattern gated state).1 ∧
          related (one.test object name pattern gated state).2
            (two.test object name pattern gated other).2
  refuses : Follows related givenUp one.refuseNesting two.refuseNesting
  indirect : ∀ object, Follows related givenUp (one.indirect enter object)
    (two.indirect otherEnter object)
  stays : ∀ tree state, givenUp state → givenUp (one.eval enter tree state).2

namespace Parallel

variable {one two : Evaluator} {enter otherEnter : EnterLock}
  {related : Evaluation → Evaluation → Prop} {givenUp : Evaluation → Prop}

mutual

theorem eval (parallel : Parallel one two enter otherEnter related givenUp) : ∀ tree : LockExpr,
    Follows related givenUp (one.eval enter tree) (two.eval otherEnter tree)
  | .or terms => by
      unfold Evaluator.eval
      exact parallel.evalAny terms
  | .and terms => by
      unfold Evaluator.eval
      exact parallel.evalAll terms
  | .not inner => by
      intro state other start
      unfold Evaluator.eval
      rcases parallel.eval inner state other start with gaveUp | ⟨answer, behind⟩
      · exact .inl gaveUp
      · exact .inr ⟨congrArg (!·) answer, behind⟩
  | .number value => by
      intro state other start
      unfold Evaluator.eval
      exact .inr ⟨rfl, start⟩
  | .attrTest name pattern => by
      intro state other start
      unfold Evaluator.eval
      rw [parallel.actor state other start]
      exact parallel.tests state.actor name pattern false state other start fun _ => rfl
  | .ref kind name => by
      intro state other start
      unfold Evaluator.eval
      rw [parallel.resolves state other start]
      cases one.resolve state.locked name with
      | none => exact .inr ⟨rfl, start⟩
      | some object => exact .inr ⟨parallel.compares state other start object kind, start⟩
  | .indirect name => by
      intro state other start
      unfold Evaluator.eval
      rw [parallel.resolves state other start]
      cases one.resolve state.locked name with
      | none => exact .inr ⟨rfl, start⟩
      | some object =>
          dsimp only
          rw [parallel.sees state other start]
          split
          · exact parallel.indirect object state other start
          · exact .inr ⟨rfl, start⟩
  | .indirectLock name => by
      intro state other start
      unfold Evaluator.eval
      rw [parallel.resolves state other start]
      cases one.resolve state.locked name with
      | none => exact .inr ⟨rfl, start⟩
      | some object => exact parallel.indirect object state other start
  | .indirectAttr target test => by
      intro state other start
      unfold Evaluator.eval
      rw [parallel.resolves state other start]
      split
      · exact parallel.tests _ _ _ true state other start (by simp)
      · exact .inr ⟨rfl, start⟩
  | .tooDeep => by
      unfold Evaluator.eval
      exact parallel.refuses

theorem evalAny (parallel : Parallel one two enter otherEnter related givenUp) :
    ∀ terms : List LockExpr,
      Follows related givenUp (one.evalAny enter terms) (two.evalAny otherEnter terms)
  | [] => by
      intro state other start
      unfold Evaluator.evalAny
      exact .inr ⟨rfl, start⟩
  | term :: later => by
      have stays := parallel.stays (.or later)
      unfold Evaluator.eval at stays
      unfold Evaluator.evalAny
      exact (parallel.eval term).andThen (· || ·) (parallel.evalAny later) stays

theorem evalAll (parallel : Parallel one two enter otherEnter related givenUp) :
    ∀ terms : List LockExpr,
      Follows related givenUp (one.evalAll enter terms) (two.evalAll otherEnter terms)
  | [] => by
      intro state other start
      unfold Evaluator.evalAll
      exact .inr ⟨rfl, start⟩
  | term :: later => by
      have stays := parallel.stays (.and later)
      unfold Evaluator.eval at stays
      unfold Evaluator.evalAll
      exact (parallel.eval term).andThen (· && ·) (parallel.evalAll later) stays

end

end Parallel
end WorldLocks
