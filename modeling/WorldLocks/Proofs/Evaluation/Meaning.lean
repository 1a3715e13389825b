import WorldLocks.Proofs.Evaluation.Frame
import WorldLocks.Proofs.Evaluation.Readings

/-! What locks mean.  A lock means what its tree says as a formula of ordinary logic, in which an
indirection has the meaning of the other object's own lock.  Nothing is counted and no context is
changed, so locks that ask each other in a circle have no meaning.  An evaluation that stays within
the limit on locks comes to what the lock means. -/

set_option autoImplicit false

namespace WorldLocks

/-- What the meaning of a lock depends on besides the lock: who wants to pass in which zone, and
what is looked at. -/
structure Inquiry where
  ev : Evaluator
  /-- Where readings are remembered at the start. -/
  cache : ReadCache
  actor : Dbref
  zone : Dbref

namespace Inquiry

/-! ## Leaves -/

def value (q : Inquiry) (object : Dbref) (definition : AttrDef) : Text :=
  (q.ev.world.readWith q.cache object definition).1

def lockOf (q : Inquiry) (object : Dbref) : Text := q.value object (.ofBuiltin .lock)

def tree (q : Inquiry) (locked : Dbref) (text : Text) : LockExpr := q.ev.treeOf q.actor locked text

/-- Whether the one who wants to pass is, carries or is in the zone of an object. -/
def compares (q : Inquiry) (object : Dbref) : RefKind → Bool
  | .is => q.actor = object
  | .carries => q.ev.carries q.actor object
  | .any =>
    q.ev.world.isValid q.actor &&
      (q.actor = object || q.ev.carries q.actor object || q.zone = object)

/-- Whether an attribute of an object matches a pattern and may be looked at. -/
def accepts (q : Inquiry) (locked object : Dbref) (name pattern : Text) (gated : Bool) : Bool :=
  q.ev.world.isValid object && (q.ev.attrFor? object name).any fun definition =>
    !definition.hasFlag .dark && (!gated || q.ev.canSee locked object definition) &&
      Pattern.accepts pattern (q.value object definition)

/-- The object whose lock an indirection asks, if it may be seen. -/
def visible? (q : Inquiry) (locked : Dbref) (name : Text) : Option Dbref :=
  (q.ev.resolve locked name).filter fun object => q.ev.canSee locked object (.ofBuiltin .lock)

/-! ## Trees -/

mutual

/-- A lock as a formula, given which objects' own locks pass. -/
def formula (q : Inquiry) (passes : Dbref → Bool) (locked : Dbref) : LockExpr → Bool
  | .or terms => q.someOf passes locked terms
  | .and terms => q.allOf passes locked terms
  | .not inner => !q.formula passes locked inner
  | .number value => value ≠ 0
  | .attrTest name pattern => q.accepts locked q.actor name pattern false
  | .ref kind name => (q.ev.resolve locked name).any fun object => q.compares object kind
  | .indirect name => (q.visible? locked name).any passes
  | .indirectLock name => (q.ev.resolve locked name).any passes
  | .indirectAttr _ none => false
  | .indirectAttr target (some (name, pattern)) =>
    (q.ev.resolve locked target).any fun object => q.accepts locked object name pattern true
  | .tooDeep => false

def someOf (q : Inquiry) (passes : Dbref → Bool) (locked : Dbref) : List LockExpr → Bool
  | [] => false
  | term :: later => q.formula passes locked term || q.someOf passes locked later

def allOf (q : Inquiry) (passes : Dbref → Bool) (locked : Dbref) : List LockExpr → Bool
  | [] => true
  | term :: later => q.formula passes locked term && q.allOf passes locked later

end

mutual

/-- The objects whose own locks a lock asks. -/
def asked (q : Inquiry) (locked : Dbref) : LockExpr → List Dbref
  | .or terms | .and terms => q.askedIn locked terms
  | .not inner => q.asked locked inner
  | .indirect name => (q.visible? locked name).toList
  | .indirectLock name => (q.ev.resolve locked name).toList
  | .number _ | .attrTest .. | .ref .. | .indirectAttr .. | .tooDeep => []

def askedIn (q : Inquiry) (locked : Dbref) : List LockExpr → List Dbref
  | [] => []
  | term :: later => q.asked locked term ++ q.askedIn locked later

end

/-! ## Meaning -/

/-- What a text means as the lock of an object. -/
inductive Means (q : Inquiry) : Dbref → Text → Bool → Prop where
  | empty (locked : Dbref) : Means q locked [] true
  | lock {locked : Dbref} {text : Text} {passes : Dbref → Bool} (nonempty : text ≠ [])
      (answers : ∀ object ∈ q.asked locked (q.tree locked text),
        Means q object (q.lockOf object) (passes object)) :
      Means q locked text (q.formula passes locked (q.tree locked text))

variable {q : Inquiry} {locked : Dbref} {passes others : Dbref → Bool}

mutual

/-- A formula depends only on the locks that it asks. -/
theorem formula_congr : ∀ tree : LockExpr,
    (∀ object ∈ q.asked locked tree, passes object = others object) →
      q.formula passes locked tree = q.formula others locked tree
  | .or terms, same => by
      unfold formula
      exact (terms_congr terms same).1
  | .and terms, same => by
      unfold formula
      exact (terms_congr terms same).2
  | .not inner, same => by
      unfold formula
      rw [formula_congr inner same]
  | .number _, _ => by
      unfold formula
      rfl
  | .attrTest _ _, _ => by
      unfold formula
      rfl
  | .ref _ _, _ => by
      unfold formula
      rfl
  | .indirect name, same => by
      unfold formula
      unfold asked at same
      cases found : q.visible? locked name with
      | none => rfl
      | some object => exact same object (by simp [found])
  | .indirectLock name, same => by
      unfold formula
      unfold asked at same
      cases found : q.ev.resolve locked name with
      | none => rfl
      | some object => exact same object (by simp [found])
  | .indirectAttr _ none, _ => by
      unfold formula
      rfl
  | .indirectAttr _ (some _), _ => by
      unfold formula
      rfl
  | .tooDeep, _ => by
      unfold formula
      rfl

theorem terms_congr : ∀ terms : List LockExpr,
    (∀ object ∈ q.askedIn locked terms, passes object = others object) →
      q.someOf passes locked terms = q.someOf others locked terms ∧
        q.allOf passes locked terms = q.allOf others locked terms
  | [], _ => by
      unfold someOf allOf
      exact ⟨rfl, rfl⟩
  | term :: later, same => by
      unfold askedIn at same
      have first := formula_congr term fun object member =>
        same object (List.mem_append_left _ member)
      obtain ⟨some, all⟩ := terms_congr later fun object member =>
        same object (List.mem_append_right _ member)
      unfold someOf allOf
      rw [first, some, all]
      exact ⟨rfl, rfl⟩

end

/-- A lock means at most one thing. -/
theorem Means.unique {text : Text} {passed other : Bool} (means : q.Means locked text passed)
    (also : q.Means locked text other) : passed = other := by
  induction means generalizing other with
  | empty locked =>
      cases also with
      | empty => rfl
      | lock nonempty _ => exact absurd rfl nonempty
  | lock nonempty answers ih =>
      cases also with
      | empty => exact absurd rfl nonempty
      | lock _ also =>
          exact formula_congr _ fun object member => ih object member (also object member)

open Classical in
/-- Whether the own lock of an object means that it passes. -/
noncomputable def settled (q : Inquiry) (object : Dbref) : Bool :=
  decide (q.Means object (q.lockOf object) true)

open Classical in
theorem Means.settled_eq {object : Dbref} {passed : Bool}
    (means : q.Means object (q.lockOf object) passed) : q.settled object = passed := by
  unfold settled
  cases passed with
  | true => exact decide_eq_true means
  | false => exact decide_eq_false fun other => Bool.noConfusion (means.unique other)

/-! ## Evaluations -/

/-- Whether the state of an evaluation is one in which the inquiry is asked. -/
structure Serves (q : Inquiry) (state : Evaluation) : Prop where
  actor : state.actor = q.actor
  zone : state.zone = q.zone
  alike : q.ev.world.AlikeNow state.cache q.cache

variable {state : Evaluation}

theorem Serves.read (covered : q.ev.world.Covered) (serves : q.Serves state) (object : Dbref)
    {definition : AttrDef} (current : q.ev.world.IsCurrent definition) :
    (q.ev.read object definition state).1 = q.value object definition ∧
      q.Serves (q.ev.read object definition state).2 :=
  ⟨serves.alike object definition current, serves.actor, serves.zone,
    (covered.alikeNow_read current object state.cache).trans serves.alike⟩

theorem Serves.test (covered : q.ev.world.Covered) (serves : q.Serves state) (object : Dbref)
    (name pattern : Text) (gated : Bool) :
    (q.ev.test object name pattern gated state).1 =
        q.accepts state.locked object name pattern gated ∧
      q.Serves (q.ev.test object name pattern gated state).2 := by
  unfold Evaluator.test accepts
  cases q.ev.world.isValid object with
  | false => exact ⟨rfl, serves⟩
  | true =>
      cases named : q.ev.attrFor? object name with
      | none => exact ⟨rfl, serves⟩
      | some definition =>
          have current := covered.isCurrent_of_provides (World.provides_of_attrFor? named)
          obtain ⟨value, reading⟩ := serves.read covered object current
          have shown : (!gated || q.ev.canSee state.locked object definition) =
              !(gated && !q.ev.canSee state.locked object definition) := by
            cases gated <;> simp
          simp only [Option.any_some, shown]
          cases definition.hasFlag .dark with
          | true => exact ⟨rfl, serves⟩
          | false =>
              cases gated && !q.ev.canSee state.locked object definition with
              | true => exact ⟨rfl, serves⟩
              | false => exact ⟨congrArg (Pattern.accepts pattern) value, reading⟩

theorem Serves.compares (serves : q.Serves state) (object : Dbref) (kind : RefKind) :
    q.ev.compare state object kind = q.compares object kind := by
  cases kind <;>
    simp only [Evaluator.compare, Inquiry.compares, serves.actor, serves.zone]

/-- Whether a part of a lock came to its meaning and every lock that it asks has one, unless too
many locks were met. -/
def Settles (q : Inquiry) (asked : List Dbref) (meaning : Bool) (result : Bool × Evaluation) :
    Prop :=
  q.ev.limits.maxLockDepth < result.2.depth ∨
    q.Serves result.2 ∧ result.1 = meaning ∧
      ∀ object ∈ asked, q.Means object (q.lockOf object) (q.settled object)

/-- Whether locks that are entered from some depth on come to their meaning. -/
def EntersFrom (q : Inquiry) (floor : Nat) : Prop :=
  ∀ text state, floor ≤ state.depth → q.Serves state →
    q.ev.limits.maxLockDepth < (q.ev.enter text state).2.depth ∨
      q.Serves (q.ev.enter text state).2 ∧ q.Means state.locked text (q.ev.enter text state).1

variable {floor : Nat}

theorem Settles.leaf {meaning : Bool} {result : Bool × Evaluation}
    (leaf : result.1 = meaning ∧ q.Serves result.2) : q.Settles [] meaning result :=
  .inr ⟨leaf.2, leaf.1, by simp⟩

theorem Settles.indirect (covered : q.ev.world.Covered) (enters : q.EntersFrom floor)
    (above : floor ≤ state.depth) (serves : q.Serves state) (object : Dbref) :
    q.Settles [object] (q.settled object) (q.ev.indirect q.ev.enter object state) := by
  obtain ⟨value, reading⟩ := serves.read covered object
    (covered.isCurrent_of_provides (.inl ⟨.lock, rfl⟩))
  unfold Evaluator.indirect
  dsimp only
  rw [value]
  rcases enters (q.lockOf object)
    { (q.ev.read object (.ofBuiltin .lock) state).2 with locked := object } above
    ⟨reading.actor, reading.zone, reading.alike⟩ with many | ⟨behind, means⟩
  · exact .inl many
  · refine .inr ⟨⟨behind.actor, behind.zone, behind.alike⟩, means.settled_eq.symm, ?_⟩
    intro other asked
    obtain rfl := List.mem_singleton.mp asked
    rw [means.settled_eq]
    exact means

/-- The terms of a chain, one after the other.  Once too many locks were met it stays so. -/
theorem Settles.cons (combine : Bool → Bool → Bool) {asked later : List Dbref}
    {meaning other : Bool} {first rest : Bool × Evaluation}
    (settles : q.Settles asked meaning first) (deeper : first.2.depth ≤ rest.2.depth)
    (settlesLater : q.Serves first.2 → q.Settles later other rest) :
    q.Settles (asked ++ later) (combine meaning other) (combine first.1 rest.1, rest.2) := by
  rcases settles with many | ⟨serves, came, means⟩
  · exact .inl (Nat.lt_of_lt_of_le many deeper)
  · rcases settlesLater serves with many | ⟨behind, cameLater, meansLater⟩
    · exact .inl many
    · refine .inr ⟨behind, by rw [came, cameLater], fun object member => ?_⟩
      exact (List.mem_append.mp member).elim (means object) (meansLater object)

mutual

theorem settles_eval (covered : q.ev.world.Covered) (enters : q.EntersFrom floor) :
    ∀ (tree : LockExpr) (state : Evaluation), floor ≤ state.depth → q.Serves state →
      q.Settles (q.asked state.locked tree) (q.formula q.settled state.locked tree)
        (q.ev.eval q.ev.enter tree state)
  | .or terms, state, above, serves => by
      unfold Evaluator.eval formula asked
      exact settles_evalAny covered enters terms state above serves
  | .and terms, state, above, serves => by
      unfold Evaluator.eval formula asked
      exact settles_evalAll covered enters terms state above serves
  | .not inner, state, above, serves => by
      unfold Evaluator.eval formula asked
      rcases settles_eval covered enters inner state above serves with many | ⟨behind, rest⟩
      · exact .inl many
      · exact .inr ⟨behind, congrArg (!·) rest.1, rest.2⟩
  | .number value, state, _, serves => by
      unfold Evaluator.eval formula asked
      exact .leaf ⟨rfl, serves⟩
  | .attrTest name pattern, state, _, serves => by
      unfold Evaluator.eval formula asked
      rw [serves.actor]
      exact .leaf (serves.test covered q.actor name pattern false)
  | .ref kind name, state, _, serves => by
      unfold Evaluator.eval formula asked
      cases q.ev.resolve state.locked name with
      | none => exact .leaf ⟨rfl, serves⟩
      | some object => exact .leaf ⟨serves.compares object kind, serves⟩
  | .indirect name, state, above, serves => by
      unfold Evaluator.eval formula asked visible?
      cases q.ev.resolve state.locked name with
      | none => exact .leaf ⟨rfl, serves⟩
      | some object =>
          cases seen : q.ev.canSee state.locked object (.ofBuiltin .lock) with
          | true =>
              simp only [Option.filter_some, seen, if_true]
              exact .indirect covered enters above serves object
          | false =>
              simp only [Option.filter_some, seen, Bool.false_eq_true, if_false]
              exact .leaf ⟨rfl, serves⟩
  | .indirectLock name, state, above, serves => by
      unfold Evaluator.eval formula asked
      cases q.ev.resolve state.locked name with
      | none => exact .leaf ⟨rfl, serves⟩
      | some object => exact .indirect covered enters above serves object
  | .indirectAttr target none, state, _, serves => by
      unfold Evaluator.eval formula asked
      cases q.ev.resolve state.locked target <;> exact .leaf ⟨rfl, serves⟩
  | .indirectAttr target (some (name, pattern)), state, _, serves => by
      unfold Evaluator.eval formula asked
      cases q.ev.resolve state.locked target with
      | none => exact .leaf ⟨rfl, serves⟩
      | some object => exact .leaf (serves.test covered object name pattern true)
  | .tooDeep, state, _, serves => by
      unfold Evaluator.eval formula asked
      obtain ⟨news, refuses⟩ := q.ev.refuseNesting_frame state
      rw [refuses]
      exact .leaf ⟨rfl, serves.actor, serves.zone, serves.alike⟩

theorem settles_evalAny (covered : q.ev.world.Covered) (enters : q.EntersFrom floor) :
    ∀ (terms : List LockExpr) (state : Evaluation), floor ≤ state.depth → q.Serves state →
      q.Settles (q.askedIn state.locked terms) (q.someOf q.settled state.locked terms)
        (q.ev.evalAny q.ev.enter terms state)
  | [], state, _, serves => by
      unfold Evaluator.evalAny someOf askedIn
      exact .leaf ⟨rfl, serves⟩
  | term :: later, state, above, serves => by
      unfold Evaluator.evalAny someOf askedIn
      have keeps := Evaluator.Keeps.eval q.ev term state
      refine Settles.cons (· || ·) (settles_eval covered enters term state above serves)
        (Evaluator.Keeps.evalAny q.ev later _).depth fun behind => ?_
      rw [← keeps.locked]
      exact settles_evalAny covered enters later _ (Nat.le_trans above keeps.depth) behind

theorem settles_evalAll (covered : q.ev.world.Covered) (enters : q.EntersFrom floor) :
    ∀ (terms : List LockExpr) (state : Evaluation), floor ≤ state.depth → q.Serves state →
      q.Settles (q.askedIn state.locked terms) (q.allOf q.settled state.locked terms)
        (q.ev.evalAll q.ev.enter terms state)
  | [], state, _, serves => by
      unfold Evaluator.evalAll allOf askedIn
      exact .leaf ⟨rfl, serves⟩
  | term :: later, state, above, serves => by
      unfold Evaluator.evalAll allOf askedIn
      have keeps := Evaluator.Keeps.eval q.ev term state
      refine Settles.cons (· && ·) (settles_eval covered enters term state above serves)
        (Evaluator.Keeps.evalAll q.ev later _).depth fun behind => ?_
      rw [← keeps.locked]
      exact settles_evalAll covered enters later _ (Nat.le_trans above keeps.depth) behind

end

/-- A lock that is entered comes to its meaning, unless too many locks are met. -/
theorem entersFrom (covered : q.ev.world.Covered) (floor : Nat) : q.EntersFrom floor := by
  refine fun text state _ => Evaluator.enter_induction (fun text state result => q.Serves state →
    q.ev.limits.maxLockDepth < result.2.depth ∨
      q.Serves result.2 ∧ q.Means state.locked text result.1) ?empty ?refused ?entered text state
  case empty => exact fun state serves => .inr ⟨serves, .empty state.locked⟩
  case refused => exact fun _ _ _ full _ => .inl (Evaluator.lt_depth_of_refuseDepth full)
  case entered =>
    intro text state nonempty _ inside serves
    have opened : q.Serves (state.entering text) := ⟨serves.actor, serves.zone, serves.alike⟩
    have settles := settles_eval covered (fun inner behind deeper => inside inner behind deeper)
      (q.tree state.locked text) (state.entering text) (Nat.le_refl _) opened
    rw [serves.actor]
    rcases settles with many | ⟨behind, came, means⟩
    · exact .inl many
    · refine .inr ⟨behind, ?_⟩
      change q.Means state.locked text
        (q.ev.eval q.ev.enter (q.tree state.locked text) (state.entering text)).1
      rw [came]
      exact .lock nonempty means

/-- An evaluation that does not meet too many locks comes to what the lock means. -/
theorem means_iff (covered : q.ev.world.Covered) (valid : q.ev.world.isValid locked) {text : Text}
    (short : Text.bytes text < q.ev.limits.bufferLen)
    (few : (q.ev.evaluate q.cache q.actor locked text q.zone).2.depth ≤
      q.ev.limits.maxLockDepth) (passed : Bool) :
    q.Means locked text passed ↔
      passed = (q.ev.evaluate q.cache q.actor locked text q.zone).1 := by
  rw [Evaluator.evaluate_eq_enter valid short] at few ⊢
  rcases entersFrom covered 0 text (.start q.actor locked q.zone q.cache) (Nat.zero_le _)
    ⟨rfl, rfl, .refl q.cache⟩ with many | ⟨-, means⟩
  · omega
  · constructor
    · exact fun other => other.unique means
    · rintro rfl
      exact means

end Inquiry
end WorldLocks
