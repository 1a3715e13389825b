import WorldLocks.Proofs.Evaluation.Alike
import WorldLocks.Proofs.Evaluation.Indirection

/-! A higher limit on locks.  One count is kept for all locks of an evaluation, so with a higher
limit the locks that are met first may use up more of it before later ones are met.  Still, up to
the first lock that is refused under the lower limit the evaluations are the same, and from then on
every lock that is not empty is refused under it.  Where nothing is negated, what is refused can
only keep an evaluation from passing. -/

set_option autoImplicit false

namespace WorldLocks

namespace LockExpr

def isNegation : LockExpr → Bool
  | .not _ => true
  | _ => false

/-- Whether nothing is negated anywhere in a tree. -/
def Upright (tree : LockExpr) : Prop := ∀ node ∈ tree.nodes, node.isNegation = false

instance : DecidablePred Upright := fun tree => List.decidableBAll _ tree.nodes

variable {tree branch inner : LockExpr}

theorem Upright.part (upright : tree.Upright) (below : Part branch tree) : branch.Upright :=
  fun node member => upright node (below.nodes member)

theorem not_upright_not : ¬ (LockExpr.not inner).Upright :=
  fun upright => Bool.noConfusion (upright (.not inner) (mem_nodes_self _))

end LockExpr

namespace Evaluator

/-- The evaluator with another limit on locks. -/
def withDepth (ev : Evaluator) (maxLockDepth : Nat) : Evaluator :=
  { ev with limits := { ev.limits with maxLockDepth := maxLockDepth } }

/-- Whether a lock has been entered in which something is negated. -/
def Negates (ev : Evaluator) (state : Evaluation) : Prop :=
  ∃ entry ∈ state.entered, ¬ (ev.treeOf state.actor entry.1 entry.2).Upright

theorem Negates.of_keeps {ev : Evaluator} {before after : Evaluation} (negates : ev.Negates before)
    (keeps : ev.Keeps before after) : ev.Negates after := by
  obtain ⟨entry, member, inverted⟩ := negates
  obtain ⟨opened, entered, -⟩ := keeps.entered
  exact ⟨entry, entered ▸ List.mem_append_left opened member, keeps.actor ▸ inverted⟩

end Evaluator

namespace Inquiry

variable {q : Inquiry} {floor deeper : Nat} {state other : Evaluation}

/-! ## One evaluation -/

/-- However many locks are met, readings are not changed by entering one. -/
theorem Serves.enter (covered : q.ev.world.Covered) (serves : q.Serves state) (text : Text) :
    q.Serves (q.ev.enter text state).2 := by
  have same : q.ev.Alike q.ev
      (fun first second => second = first ∧ q.ev.world.AlikeNow first q.cache)
      fun _ _ => False := by
    constructor
    case reads =>
      rintro first _ ⟨rfl, alike⟩ object definition provides - -
      have current := covered.isCurrent_of_provides provides
      exact ⟨rfl, rfl, (covered.alikeNow_read current object _).trans alike⟩
    case locks => exact fun _ => id
    all_goals rfl
  have keeps := @Evaluator.keeps_enter q.ev text state
  rcases same.follows_enter q.ev.limits.maxLockDepth text state state
    ⟨⟨state.cache, rfl, rfl, serves.alike⟩, fun _ => id, Nat.le_add_right _ _⟩ with
    ⟨-, -, -, -, impossible, -⟩ | ⟨-, ⟨-, -, -, alike⟩, -, -⟩
  · exact impossible.elim
  · exact ⟨keeps.actor.trans serves.actor, keeps.zone.trans serves.zone, alike⟩

/-! ## Two limits -/

/-- An inquiry under another limit on locks. -/
def withDepth (q : Inquiry) (maxLockDepth : Nat) : Inquiry :=
  { q with ev := q.ev.withDepth maxLockDepth }

/-- A state from some depth on, and one that has come as far under a higher limit.  They are the
same as long as locks may be entered in the first one. -/
structure Trails (q : Inquiry) (deeper floor : Nat) (state other : Evaluation) : Prop where
  above : floor ≤ state.depth
  serves : q.Serves state
  servesOther : (q.withDepth deeper).Serves other
  locked : other.locked = state.locked
  same : other = state ∨ q.ev.limits.maxLockDepth ≤ state.depth

/-- Whether a step under a higher limit passes wherever another one does from a state that trails,
and the states are still so afterwards, unless a negation was met. -/
def Outdone (q : Inquiry) (deeper floor : Nat) (first second : EvalStep Bool) : Prop :=
  ∀ state other, q.Trails deeper floor state other →
    (q.ev.withDepth deeper).Negates (second other).2 ∨
      ((first state).1 = true → (second other).1 = true) ∧
        q.Trails deeper floor (first state).2 (second other).2

/-- Whether locks that are entered from some depth on are outdone by themselves under a higher
limit. -/
def EntersOutdone (q : Inquiry) (deeper floor : Nat) : Prop :=
  ∀ text, q.Outdone deeper floor (q.ev.enter text) ((q.ev.withDepth deeper).enter text)

theorem Trails.relocate (trails : q.Trails deeper floor state other) {object another : Dbref}
    (same : another = object) :
    q.Trails deeper floor { state with locked := object } { other with locked := another } where
  above := trails.above
  serves := { trails.serves with }
  servesOther := { trails.servesOther with }
  locked := same
  same := trails.same.imp_left fun equal => by rw [equal, same]

theorem Trails.resolve (trails : q.Trails deeper floor state other) (name : Text) :
    (q.ev.withDepth deeper).resolve other.locked name = q.ev.resolve state.locked name := by
  rw [trails.locked]
  rfl

theorem Trails.canSee (trails : q.Trails deeper floor state other) (object : Dbref)
    (definition : AttrDef) :
    (q.ev.withDepth deeper).canSee other.locked object definition =
      q.ev.canSee state.locked object definition := by
  rw [trails.locked]
  rfl

theorem Trails.compare (trails : q.Trails deeper floor state other) (object : Dbref)
    (kind : RefKind) :
    (q.ev.withDepth deeper).compare other object kind = q.ev.compare state object kind :=
  (trails.servesOther.compares object kind).trans (trails.serves.compares object kind).symm

theorem Trails.read (covered : q.ev.world.Covered) (trails : q.Trails deeper floor state other)
    (object : Dbref) {definition : AttrDef} (current : q.ev.world.IsCurrent definition) :
    ((q.ev.withDepth deeper).read object definition other).1 =
        (q.ev.read object definition state).1 ∧
      q.Trails deeper floor (q.ev.read object definition state).2
        ((q.ev.withDepth deeper).read object definition other).2 := by
  obtain ⟨value, reading⟩ := trails.serves.read covered object current
  obtain ⟨valueOther, readingOther⟩ :=
    Serves.read (q := q.withDepth deeper) covered trails.servesOther object current
  refine ⟨valueOther.trans value.symm, ⟨trails.above, reading, readingOther, trails.locked, ?_⟩⟩
  exact trails.same.imp_left fun same => by rw [same]; rfl

theorem Trails.test (covered : q.ev.world.Covered) (trails : q.Trails deeper floor state other)
    (object : Dbref) (name pattern : Text) (gated : Bool) :
    ((q.ev.withDepth deeper).test object name pattern gated other).1 =
        (q.ev.test object name pattern gated state).1 ∧
      q.Trails deeper floor (q.ev.test object name pattern gated state).2
        ((q.ev.withDepth deeper).test object name pattern gated other).2 := by
  obtain ⟨answer, behind⟩ := trails.serves.test covered object name pattern gated
  obtain ⟨answerOther, behindOther⟩ :=
    Serves.test (q := q.withDepth deeper) covered trails.servesOther object name pattern gated
  have keeps := Evaluator.Keeps.test q.ev object name pattern gated
  constructor
  · rw [answer, ← trails.locked]
    exact answerOther
  · refine ⟨trails.above.trans (keeps state).depth, behind, behindOther, ?_, ?_⟩
    · exact (keeps other).locked.trans (trails.locked.trans (keeps state).locked.symm)
    · exact trails.same.imp (fun same => by rw [same]; rfl) fun full =>
        full.trans (keeps state).depth

theorem Trails.refuseNesting (trails : q.Trails deeper floor state other) :
    ((q.ev.withDepth deeper).refuseNesting other).1 = (q.ev.refuseNesting state).1 ∧
      q.Trails deeper floor (q.ev.refuseNesting state).2
        ((q.ev.withDepth deeper).refuseNesting other).2 := by
  obtain ⟨news, refuses⟩ := q.ev.refuseNesting_frame state
  obtain ⟨others, refusesOther⟩ := (q.ev.withDepth deeper).refuseNesting_frame other
  have same : other = state →
      (q.ev.withDepth deeper).refuseNesting other = q.ev.refuseNesting state := by
    rintro rfl
    rfl
  rw [refuses, refusesOther] at same ⊢
  exact ⟨rfl, trails.above, { trails.serves with }, { trails.servesOther with }, trails.locked,
    trails.same.imp_left fun equal => congrArg Prod.snd (same equal)⟩

namespace Outdone

variable {first second rest others : EvalStep Bool}

theorem of_eq (steps : ∀ state other, q.Trails deeper floor state other →
    (second other).1 = (first state).1 ∧ q.Trails deeper floor (first state).2 (second other).2) :
    q.Outdone deeper floor first second := by
  intro state other trails
  obtain ⟨answer, behind⟩ := steps state other trails
  exact .inr ⟨answer.trans, behind⟩

/-- Two steps in a row, of which the second one does not take back a negation. -/
theorem andThen (combine : Bool → Bool → Bool)
    (monotone : ∀ {one two one' two' : Bool}, (one = true → one' = true) →
      (two = true → two' = true) → combine one two = true → combine one' two' = true)
    (outdone : q.Outdone deeper floor first second)
    (outdoneLater : q.Outdone deeper floor rest others)
    (stays : ∀ state, (q.ev.withDepth deeper).Negates state →
      (q.ev.withDepth deeper).Negates (others state).2) :
    q.Outdone deeper floor
      (fun state => (combine (first state).1 (rest (first state).2).1, (rest (first state).2).2))
      (fun state =>
        (combine (second state).1 (others (second state).2).1, (others (second state).2).2)) := by
  intro state other start
  rcases outdone state other start with negates | ⟨answer, behind⟩
  · exact .inl (stays _ negates)
  · rcases outdoneLater _ _ behind with negates | ⟨answerLater, last⟩
    · exact .inl negates
    · exact .inr ⟨monotone answer answerLater, last⟩

theorem indirect (covered : q.ev.world.Covered) (enters : q.EntersOutdone deeper floor)
    (object : Dbref) :
    q.Outdone deeper floor (q.ev.indirect q.ev.enter object)
      ((q.ev.withDepth deeper).indirect (q.ev.withDepth deeper).enter object) := by
  intro state other trails
  obtain ⟨text, reading⟩ := trails.read covered object
    (covered.isCurrent_of_provides (.inl ⟨.lock, rfl⟩))
  unfold Evaluator.indirect
  dsimp only
  rw [text]
  rcases enters _ _ _ (reading.relocate rfl) with negates | ⟨passes, behind⟩
  · exact .inl negates
  · exact .inr ⟨passes, behind.relocate reading.locked⟩

mutual

theorem eval (covered : q.ev.world.Covered) (enters : q.EntersOutdone deeper floor) :
    ∀ tree : LockExpr, tree.Upright →
      q.Outdone deeper floor (q.ev.eval q.ev.enter tree)
        ((q.ev.withDepth deeper).eval (q.ev.withDepth deeper).enter tree)
  | .or terms, upright => by
      unfold Evaluator.eval
      exact evalAny covered enters terms fun term member => upright.part (.or_term member)
  | .and terms, upright => by
      unfold Evaluator.eval
      exact evalAll covered enters terms fun term member => upright.part (.and_term member)
  | .not _, upright => absurd upright LockExpr.not_upright_not
  | .number value, _ => by
      unfold Evaluator.eval
      exact of_eq fun _ _ trails => ⟨rfl, trails⟩
  | .attrTest name pattern, _ => by
      unfold Evaluator.eval
      refine of_eq fun state other trails => ?_
      rw [trails.servesOther.actor, trails.serves.actor]
      exact trails.test covered q.actor name pattern false
  | .ref kind name, _ => by
      unfold Evaluator.eval
      refine of_eq fun state other trails => ?_
      rw [trails.resolve]
      cases q.ev.resolve state.locked name with
      | none => exact ⟨rfl, trails⟩
      | some object => exact ⟨trails.compare object kind, trails⟩
  | .indirect name, _ => by
      intro state other trails
      unfold Evaluator.eval
      rw [trails.resolve]
      cases q.ev.resolve state.locked name with
      | none => exact .inr ⟨id, trails⟩
      | some object =>
          dsimp only
          rw [trails.canSee]
          split
          · exact indirect covered enters object state other trails
          · exact .inr ⟨id, trails⟩
  | .indirectLock name, _ => by
      intro state other trails
      unfold Evaluator.eval
      rw [trails.resolve]
      cases q.ev.resolve state.locked name with
      | none => exact .inr ⟨id, trails⟩
      | some object => exact indirect covered enters object state other trails
  | .indirectAttr target test, _ => by
      unfold Evaluator.eval
      refine of_eq fun state other trails => ?_
      rw [trails.resolve]
      split
      · exact trails.test covered _ _ _ true
      · exact ⟨rfl, trails⟩
  | .tooDeep, _ => by
      unfold Evaluator.eval
      exact of_eq fun state other trails => trails.refuseNesting

theorem evalAny (covered : q.ev.world.Covered) (enters : q.EntersOutdone deeper floor) :
    ∀ terms : List LockExpr, (∀ term ∈ terms, term.Upright) →
      q.Outdone deeper floor (q.ev.evalAny q.ev.enter terms)
        ((q.ev.withDepth deeper).evalAny (q.ev.withDepth deeper).enter terms)
  | [], _ => by
      unfold Evaluator.evalAny
      exact of_eq fun _ _ trails => ⟨rfl, trails⟩
  | term :: later, upright => by
      obtain ⟨first, others⟩ := List.forall_mem_cons.mp upright
      unfold Evaluator.evalAny
      refine andThen (· || ·) ?_ (eval covered enters term first)
        (evalAny covered enters later others) fun state negates => ?_
      · simp only [Bool.or_eq_true]
        exact Or.imp
      · exact negates.of_keeps (.evalAny _ later state)

theorem evalAll (covered : q.ev.world.Covered) (enters : q.EntersOutdone deeper floor) :
    ∀ terms : List LockExpr, (∀ term ∈ terms, term.Upright) →
      q.Outdone deeper floor (q.ev.evalAll q.ev.enter terms)
        ((q.ev.withDepth deeper).evalAll (q.ev.withDepth deeper).enter terms)
  | [], _ => by
      unfold Evaluator.evalAll
      exact of_eq fun _ _ trails => ⟨rfl, trails⟩
  | term :: later, upright => by
      obtain ⟨first, others⟩ := List.forall_mem_cons.mp upright
      unfold Evaluator.evalAll
      refine andThen (· && ·) ?_ (eval covered enters term first)
        (evalAll covered enters later others) fun state negates => ?_
      · simp only [Bool.and_eq_true]
        exact And.imp
      · exact negates.of_keeps (.evalAll _ later state)

end

end Outdone

/-- A lock that passes passes under a higher limit, unless a negation is met there. -/
theorem entersOutdone (covered : q.ev.world.Covered) (more : q.ev.limits.maxLockDepth ≤ deeper)
    (floor : Nat) : q.EntersOutdone deeper floor := by
  refine fun text state other => Evaluator.enter_induction (fun text state result => ∀ floor other,
    q.Trails deeper floor state other →
      (q.ev.withDepth deeper).Negates ((q.ev.withDepth deeper).enter text other).2 ∨
        (result.1 = true → ((q.ev.withDepth deeper).enter text other).1 = true) ∧
          q.Trails deeper floor result.2 ((q.ev.withDepth deeper).enter text other).2)
    ?empty ?refused ?entered text state floor other
  case empty =>
    intro state floor other trails
    rw [Evaluator.enter_nil]
    exact .inr ⟨id, trails⟩
  case refused =>
    intro text state _ full floor other trails
    obtain ⟨news, refuses⟩ := q.ev.refuseDepth_frame { state with depth := state.depth + 1 }
    rw [refuses]
    -- The first evaluation enters no lock from here on, so the states need not be the same.
    refine .inr ⟨fun passes => Bool.noConfusion passes, ?_⟩
    exact {
      above := Nat.le_succ_of_le trails.above
      serves := { trails.serves with }
      servesOther := Serves.enter (q := q.withDepth deeper) covered trails.servesOther text
      locked := (Evaluator.keeps_enter text other).locked.trans trails.locked
      same := .inr (Nat.le_succ_of_le full) }
  case entered =>
    intro text state nonempty room inside floor other trails
    obtain rfl := trails.same.resolve_right (Nat.not_le_of_lt room)
    have opens : (q.ev.withDepth deeper).enter text other =
        (q.ev.withDepth deeper).eval (q.ev.withDepth deeper).enter
          (q.ev.treeOf other.actor other.locked text) (other.entering text) :=
      Evaluator.enter_of_lt nonempty (Nat.lt_of_lt_of_le room more)
    rw [opens]
    by_cases upright : (q.ev.treeOf other.actor other.locked text).Upright
    · have opened : q.Trails deeper (other.depth + 1) (other.entering text)
          (other.entering text) :=
        ⟨Nat.le_refl _, { trails.serves with }, { trails.servesOther with }, rfl, .inl rfl⟩
      rcases Outdone.eval covered (fun inner behind another trails =>
        inside inner behind trails.above _ another trails) _ upright _ _ opened with
        negates | ⟨passes, behind⟩
      · exact .inl negates
      · refine .inr ⟨passes, ?_⟩
        exact { behind with above := trails.above.trans (Nat.le_of_lt behind.above) }
    · have negates : (q.ev.withDepth deeper).Negates (other.entering text) :=
        ⟨_, List.mem_append_right _ (List.mem_singleton_self _), upright⟩
      exact .inl (negates.of_keeps (.eval _ _ _))

end Inquiry

namespace Evaluator

variable {ev : Evaluator} {deeper : Nat} {cache : ReadCache} {actor locked zone : Dbref}
  {text : Text}

/-- The limit on locks makes no difference before the first one is entered. -/
theorem evaluate_withDepth_of_shut
    (shut : ¬ (ev.world.isValid locked = true ∧ Text.bytes text < ev.limits.bufferLen)) :
    (ev.withDepth deeper).evaluate cache actor locked text zone =
      ev.evaluate cache actor locked text zone := by
  unfold evaluate withDepth
  dsimp only
  by_cases valid : ev.world.isValid locked = true
  · have long : ev.limits.bufferLen ≤ Text.bytes text :=
      Nat.le_of_not_lt fun short => shut ⟨valid, short⟩
    rw [if_pos long, if_pos long]
    rfl
  · rw [if_pos (by simpa using valid), if_pos (by simpa using valid)]

/-- What passes under a limit on locks passes under every higher one, unless a lock is entered then
in which something is negated. -/
theorem passes_withDepth {allowed : Operation → Prop} (reachable : World.Reachable allowed ev.world)
    (more : ev.limits.maxLockDepth ≤ deeper)
    (upright : ∀ entry ∈
      ((ev.withDepth deeper).evaluate cache actor locked text zone).2.entered,
        (ev.treeOf actor entry.1 entry.2).Upright)
    (passes : (ev.evaluate cache actor locked text zone).1 = true) :
    ((ev.withDepth deeper).evaluate cache actor locked text zone).1 = true := by
  by_cases opens : ev.world.isValid locked = true ∧ Text.bytes text < ev.limits.bufferLen
  · have enters : (ev.withDepth deeper).evaluate cache actor locked text zone =
        (ev.withDepth deeper).enter text (.start actor locked zone cache) :=
      evaluate_eq_enter opens.1 opens.2
    rw [evaluate_eq_enter opens.1 opens.2] at passes
    rw [enters] at upright ⊢
    let q : Inquiry := ⟨ev, cache, actor, zone⟩
    have starts : q.Trails deeper 0 (.start actor locked zone cache)
        (.start actor locked zone cache) :=
      ⟨Nat.le_refl _, ⟨rfl, rfl, .refl _⟩, ⟨rfl, rfl, .refl _⟩, rfl, .inl rfl⟩
    rcases Inquiry.entersOutdone reachable.covered more 0 text _ _ starts with
      ⟨entry, member, inverted⟩ | ⟨answer, -⟩
    · rw [(keeps_enter text _).actor] at inverted
      exact absurd (upright entry member) inverted
    · exact answer passes
  · rw [evaluate_withDepth_of_shut opens]
    exact passes

/-- The door's own lock asks itself again and uses up whatever the limit allows, so it is refused
under both limits when it is asked for the second time. -/
theorem passes_withDepth_ofLocked :
    let ev : Evaluator := .ofWorld (.ofLocked "1|@(#0)".toList) passthrough ⟨8192, 2⟩
    let text := "@(#0)&(@(#0)|1)".toList
    (ev.evaluate (.blank true) .system .system text .nothing).2.entered.length = 2 ∧
      ((ev.withDepth 4).evaluate (.blank true) .system .system text .nothing).2.entered.length = 4 ∧
      ((ev.withDepth 4).evaluate (.blank true) .system .system text .nothing).1 = true := by
  intro ev text
  refine ⟨by decide +kernel, by decide +kernel, ?_⟩
  exact passes_withDepth (Inquiry.reachable_ofLocked "1|@(#0)".toList) (by decide +kernel)
    (by decide +kernel) (by decide +kernel)

end Evaluator
end WorldLocks
