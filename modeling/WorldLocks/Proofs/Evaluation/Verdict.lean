import WorldLocks.Lock.Evaluate
import WorldLocks.World.Lifecycle

/-! Verdicts.  An evaluation reads every branch that a limit refuses as false.  Its verdict is the
same evaluation with the refused branches left open, so that one can ask what it would have come to
had they been read otherwise.  No branch is skipped and no answer changes the state, so everything
else in a verdict stays as it is whatever the refused branches are read as. -/

set_option autoImplicit false

namespace WorldLocks

/-- What an evaluation came to, with the branches that a limit refused left open. -/
inductive Verdict where
  | decided (passed : Bool)
  | refused
  | any (terms : List Verdict)
  | all (terms : List Verdict)
  | not (inner : Verdict)

namespace Verdict

mutual

/-- A verdict with the refused branches read in one way upright, under an even number of negations,
and in another way inverted, under an odd number. -/
def read (upright inverted : Bool) : Verdict → Bool
  | decided passed => passed
  | refused => upright
  | any terms => readAny upright inverted terms
  | all terms => readAll upright inverted terms
  | not inner => !read inverted upright inner

def readAny (upright inverted : Bool) : List Verdict → Bool
  | [] => false
  | term :: later => read upright inverted term || readAny upright inverted later

def readAll (upright inverted : Bool) : List Verdict → Bool
  | [] => true
  | term :: later => read upright inverted term && readAll upright inverted later

end

mutual

/-- Whether a branch is refused that stands inverted, or one that stands upright. -/
def refuses : (inverted : Bool) → Verdict → Bool
  | _, decided _ => false
  | inverted, refused => !inverted
  | inverted, any terms | inverted, all terms => refusesIn inverted terms
  | inverted, not inner => refuses (!inverted) inner

def refusesIn : (inverted : Bool) → List Verdict → Bool
  | _, [] => false
  | inverted, term :: later => refuses inverted term || refusesIn inverted later

end

/-! ## Readings -/

mutual

/-- Granting more of the upright refusals and fewer of the inverted ones never turns a pass into a
failure. -/
theorem read_mono {upright inverted upright' inverted' : Bool}
    (more : upright = true → upright' = true) (fewer : inverted' = true → inverted = true) :
    ∀ verdict : Verdict, verdict.read upright inverted = true →
      verdict.read upright' inverted' = true
  | decided _, passes => passes
  | refused, passes => more passes
  | any terms, passes => readAny_mono more fewer terms passes
  | all terms, passes => readAll_mono more fewer terms passes
  | not inner, passes => by
      simp only [read, Bool.not_eq_true'] at passes ⊢
      refine Bool.eq_false_iff.mpr fun granted => ?_
      have kept := read_mono fewer more inner granted
      rw [passes] at kept
      cases kept

theorem readAny_mono {upright inverted upright' inverted' : Bool}
    (more : upright = true → upright' = true) (fewer : inverted' = true → inverted = true) :
    ∀ terms : List Verdict, readAny upright inverted terms = true →
      readAny upright' inverted' terms = true
  | [], passes => passes
  | term :: later, passes => by
      simp only [readAny, Bool.or_eq_true] at passes ⊢
      exact passes.imp (read_mono more fewer term) (readAny_mono more fewer later)

theorem readAll_mono {upright inverted upright' inverted' : Bool}
    (more : upright = true → upright' = true) (fewer : inverted' = true → inverted = true) :
    ∀ terms : List Verdict, readAll upright inverted terms = true →
      readAll upright' inverted' terms = true
  | [], passes => passes
  | term :: later, passes => by
      simp only [readAll, Bool.and_eq_true] at passes ⊢
      exact passes.imp (read_mono more fewer term) (readAll_mono more fewer later)

end

mutual

/-- How inverted refusals are read matters only if there are any, and likewise for upright ones. -/
theorem read_congr {upright inverted upright' inverted' : Bool} :
    ∀ verdict : Verdict, (verdict.refuses false = true → upright = upright') →
      (verdict.refuses true = true → inverted = inverted') →
      verdict.read upright inverted = verdict.read upright' inverted'
  | decided _, _, _ => rfl
  | refused, same, _ => same rfl
  | any terms, same, sameInverted => by
      simp only [read]
      exact (readIn_congr terms same sameInverted).1
  | all terms, same, sameInverted => by
      simp only [read]
      exact (readIn_congr terms same sameInverted).2
  | not inner, same, sameInverted => by
      simp only [read]
      rw [read_congr inner sameInverted same]

theorem readIn_congr {upright inverted upright' inverted' : Bool} :
    ∀ terms : List Verdict, (refusesIn false terms = true → upright = upright') →
      (refusesIn true terms = true → inverted = inverted') →
      readAny upright inverted terms = readAny upright' inverted' terms ∧
        readAll upright inverted terms = readAll upright' inverted' terms
  | [], _, _ => ⟨rfl, rfl⟩
  | term :: later, same, sameInverted => by
      have first := read_congr term
        (fun refuses => same (by simp [refusesIn, refuses]))
        (fun refuses => sameInverted (by simp [refusesIn, refuses]))
      obtain ⟨anyLater, allLater⟩ := readIn_congr later
        (fun refuses => same (by simp [refusesIn, refuses]))
        (fun refuses => sameInverted (by simp [refusesIn, refuses]))
      simp only [readAny, readAll, first, anyLater, allLater, and_self]

end

end Verdict

/-! ## Judging -/

abbrev JudgeLock := Text → EvalStep Verdict

def decideBy (step : EvalStep Bool) : EvalStep Verdict := fun state =>
  let (passed, state) := step state
  (.decided passed, state)

def leaveOpen (step : EvalStep Bool) : EvalStep Verdict := fun state => (.refused, (step state).2)

namespace Evaluator

def judgeIndirect (ev : Evaluator) (enter : JudgeLock) (object : Dbref) : EvalStep Verdict :=
  fun state =>
    let (text, state) := ev.read object (.ofBuiltin .lock) state
    let (verdict, behind) := enter text { state with locked := object }
    (verdict, { behind with locked := state.locked })

mutual

def judge (ev : Evaluator) (enter : JudgeLock) : LockExpr → EvalStep Verdict
  | .or terms => fun state =>
    let (verdicts, state) := ev.judgeTerms enter terms state
    (.any verdicts, state)
  | .and terms => fun state =>
    let (verdicts, state) := ev.judgeTerms enter terms state
    (.all verdicts, state)
  | .not inner => fun state =>
    let (verdict, state) := ev.judge enter inner state
    (.not verdict, state)
  | .number value => decideBy fun state => (value ≠ 0, state)
  | .attrTest name pattern => decideBy fun state => ev.test state.actor name pattern false state
  | .ref kind name => decideBy fun state =>
    match ev.resolve state.locked name with
    | some object => (ev.compare state object kind, state)
    | none => (false, state)
  | .indirect name => fun state =>
    match ev.resolve state.locked name with
    | some object =>
      if ev.canSee state.locked object (.ofBuiltin .lock) then ev.judgeIndirect enter object state
      else (.decided false, state)
    | none => (.decided false, state)
  | .indirectLock name => fun state =>
    match ev.resolve state.locked name with
    | some object => ev.judgeIndirect enter object state
    | none => (.decided false, state)
  | .indirectAttr target test => decideBy fun state =>
    match ev.resolve state.locked target, test with
    | some object, some (name, pattern) => ev.test object name pattern true state
    | _, _ => (false, state)
  | .tooDeep => leaveOpen ev.refuseNesting

def judgeTerms (ev : Evaluator) (enter : JudgeLock) : List LockExpr → EvalStep (List Verdict)
  | [] => fun state => ([], state)
  | term :: later => fun state =>
    let (verdict, state) := ev.judge enter term state
    let (others, state) := ev.judgeTerms enter later state
    (verdict :: others, state)

end

def judgeLock (ev : Evaluator) : Nat → JudgeLock
  | levels, text => fun state =>
    if text.isEmpty then (.decided true, state)
    else
      let counted := { state with depth := state.depth + 1 }
      match levels with
      | 0 => leaveOpen ev.refuseDepth counted
      | levels + 1 =>
        if ev.limits.maxLockDepth < counted.depth then leaveOpen ev.refuseDepth counted
        else
          let tree := ev.treeOf state.actor state.locked text
          ev.judge (ev.judgeLock levels) tree
            { counted with entered := counted.entered ++ [(counted.locked, text)] }

/-- Judges a lock text as the lock of an object. -/
def verdict (ev : Evaluator) (cache : ReadCache) (actor locked : Dbref) (text : Text)
    (zone : Dbref) : Verdict × Evaluation :=
  let state := Evaluation.start actor locked zone cache
  if !ev.world.isValid locked then (.decided false, state)
  else if text.isEmpty then (.decided true, state)
  else if ev.limits.bufferLen ≤ Text.bytes text then decideBy ev.refuseLength state
  else ev.judgeLock ev.limits.maxLockDepth text state

/-! ## Verdicts and evaluations -/

/-- Whether a judgement, with everything refused read as false, is an evaluation. -/
def Judges (judged : Verdict × Evaluation) (evaluated : Bool × Evaluation) : Prop :=
  evaluated = (judged.1.read false false, judged.2)

variable {ev : Evaluator} {enter : EnterLock} {judges : JudgeLock}

theorem judges_decideBy (step : EvalStep Bool) (state : Evaluation) :
    Judges (decideBy step state) (step state) := rfl

theorem judges_indirect (same : ∀ text state, Judges (judges text state) (enter text state))
    (object : Dbref) (state : Evaluation) :
    Judges (ev.judgeIndirect judges object state) (ev.indirect enter object state) := by
  unfold Judges indirect judgeIndirect
  dsimp only
  rw [same]

mutual

theorem judges_eval (same : ∀ text state, Judges (judges text state) (enter text state)) :
    ∀ (tree : LockExpr) (state : Evaluation),
      Judges (ev.judge judges tree state) (ev.eval enter tree state)
  | .or terms, state => by
      have terms := judges_terms same terms state
      unfold Judges eval judge
      exact terms.1
  | .and terms, state => by
      have terms := judges_terms same terms state
      unfold Judges eval judge
      exact terms.2
  | .not inner, state => by
      have inner := judges_eval same inner state
      unfold Judges at inner
      unfold Judges eval judge
      simp only [inner, Verdict.read]
  | .number value, state => by
      unfold eval judge
      exact judges_decideBy _ state
  | .attrTest name pattern, state => by
      unfold eval judge
      exact judges_decideBy _ state
  | .ref kind name, state => by
      unfold eval judge
      exact judges_decideBy _ state
  | .indirect name, state => by
      unfold eval judge
      cases ev.resolve state.locked name with
      | none => rfl
      | some object =>
          dsimp only
          split
          · exact judges_indirect same object state
          · rfl
  | .indirectLock name, state => by
      unfold eval judge
      cases ev.resolve state.locked name with
      | none => rfl
      | some object => exact judges_indirect same object state
  | .indirectAttr target test, state => by
      unfold eval judge
      exact judges_decideBy _ state
  | .tooDeep, state => by
      unfold eval judge
      rfl

theorem judges_terms (same : ∀ text state, Judges (judges text state) (enter text state)) :
    ∀ (terms : List LockExpr) (state : Evaluation),
      ev.evalAny enter terms state =
          (Verdict.readAny false false (ev.judgeTerms judges terms state).1,
            (ev.judgeTerms judges terms state).2) ∧
        ev.evalAll enter terms state =
          (Verdict.readAll false false (ev.judgeTerms judges terms state).1,
            (ev.judgeTerms judges terms state).2)
  | [], _ => ⟨rfl, rfl⟩
  | term :: later, state => by
      have first := judges_eval same term state
      have others := judges_terms same later (ev.judge judges term state).2
      unfold Judges at first
      unfold evalAny evalAll judgeTerms
      simp only [first, others.1, others.2, Verdict.readAny, Verdict.readAll, and_self]

end

theorem judges_lock (levels : Nat) (text : Text) (state : Evaluation) :
    Judges (ev.judgeLock levels text state) (ev.enterLock levels text state) := by
  induction levels generalizing text state with
  | zero =>
      unfold judgeLock enterLock
      dsimp only
      split <;> rfl
  | succ levels ih =>
      unfold judgeLock enterLock
      dsimp only
      split
      · rfl
      · split
        · rfl
        · exact judges_eval ih _ _

/-- An evaluation is its verdict with everything refused read as false. -/
theorem evaluate_eq (cache : ReadCache) (actor locked : Dbref) (text : Text) (zone : Dbref) :
    ev.evaluate cache actor locked text zone =
      ((ev.verdict cache actor locked text zone).1.read false false,
        (ev.verdict cache actor locked text zone).2) := by
  change Judges _ _
  unfold evaluate verdict
  dsimp only
  split
  · rfl
  · split
    · rfl
    · split
      · exact judges_decideBy _ _
      · exact judges_lock _ text _

/-- An evaluation reads the branches that its verdict leaves open as false.  A pass does not rest on
that, unless such a branch stands inverted. -/
theorem passes_granted (ev : Evaluator) (cache : ReadCache) (actor locked : Dbref) (text : Text)
    (zone : Dbref) :
    ev.evaluate cache actor locked text zone =
        ((ev.verdict cache actor locked text zone).1.read false false,
          (ev.verdict cache actor locked text zone).2) ∧
      ((ev.evaluate cache actor locked text zone).1 = true →
        (ev.verdict cache actor locked text zone).1.read true false = true ∧
          ((ev.verdict cache actor locked text zone).1.refuses true = false →
            (ev.verdict cache actor locked text zone).1.read true true = true)) := by
  refine ⟨evaluate_eq cache actor locked text zone, fun passes => ?_⟩
  rw [evaluate_eq] at passes
  have upright : (ev.verdict cache actor locked text zone).1.read true false = true :=
    Verdict.read_mono (fun _ => rfl) id _ passes
  refine ⟨upright, fun none => ?_⟩
  exact (Verdict.read_congr _ (fun _ => rfl) fun some => by simp [none] at some).trans upright

end Evaluator

def World.ofLocked (lock : Text) : World :=
  (((World.new {} 0).create "door".toList .thing .nothing .nothing).2.setValue .system
    (.ofBuiltin .lock) lock).2

namespace Evaluator

/-- The evaluator of a world with one locked thing, whose lock is the only one that may be
entered. -/
def ofLocked (lock : Text) : Evaluator := .ofWorld (.ofLocked lock) passthrough ⟨8192, 1⟩

theorem passes_granted_ofLocked :
    let evaluated := (ofLocked ['1']).evaluate ⟨false, []⟩ .system .system "1|@(#0)".toList .nothing
    let judged := (ofLocked ['1']).verdict ⟨false, []⟩ .system .system "1|@(#0)".toList .nothing
    evaluated = (judged.1.read false false, judged.2) ∧
      evaluated.1 = true ∧ judged.1.refuses false = true ∧ judged.1.read true false = true ∧
        judged.1.refuses true = false ∧ judged.1.read true true = true := by
  intro evaluated judged
  have passes : evaluated.1 = true := by decide +kernel
  have refused : judged.1.refuses false = true := by decide +kernel
  have upright : judged.1.refuses true = false := by decide +kernel
  obtain ⟨same, granted⟩ :=
    passes_granted (ofLocked ['1']) ⟨false, []⟩ .system .system "1|@(#0)".toList .nothing
  obtain ⟨more, all⟩ := granted passes
  exact ⟨same, passes, refused, more, upright, all upright⟩

/-- Below a negation the refused branch is what lets the actor pass. -/
theorem not_passes_granted_of_negation :
    ¬ ∀ (ev : Evaluator) (cache : ReadCache) (actor locked : Dbref) (text : Text) (zone : Dbref),
      ev.world.isValid locked → (ev.evaluate cache actor locked text zone).1 = true →
        (ev.verdict cache actor locked text zone).1.read true true = true := by
  intro claim
  have granted := claim (ofLocked ['1']) ⟨false, []⟩ .system .system "!@(#0)".toList .nothing
    (by decide +kernel) (by decide +kernel)
  have refused : ((ofLocked ['1']).verdict ⟨false, []⟩ .system .system "!@(#0)".toList
      .nothing).1.read true true = false := by decide +kernel
  rw [refused] at granted
  cases granted

end Evaluator
end WorldLocks
