import WorldLocks.Proofs.Evaluation.Frame
import WorldLocks.Proofs.Evaluation.Readings

/-! Evaluators that a lock cannot tell apart.  A lock looks at the world through few functions and
through the readings that it makes.  These are of attributes that the world provides and that are
not dark, and of those of other objects only what the lock may see.  Where all of this is the same,
the verdict and the messages are, whatever is hidden from the locks that are entered. -/

set_option autoImplicit false

namespace WorldLocks

/-- Two states of an evaluation that differ only in their caches, which are related. -/
def SameButCache (related : ReadCache → ReadCache → Prop) (state other : Evaluation) : Prop :=
  ∃ cache, other = { state with cache := cache } ∧ related state.cache cache

namespace Evaluator

/-- Whether two evaluators see the same but for what is hidden of some objects, as long as their
caches are related.  No lock is hidden. -/
structure Alike (one two : Evaluator) (related : ReadCache → ReadCache → Prop)
    (hidden : Dbref → AttrDef → Prop) : Prop where
  limits : two.limits = one.limits
  functions : two.functions = one.functions
  isValid : two.world.isValid = one.world.isValid
  ownerOf : two.world.ownerOf = one.world.ownerOf
  shown : two.world.shown = one.world.shown
  carries : two.carries = one.carries
  resolve : two.resolve = one.resolve
  canSee : two.canSee = one.canSee
  attrFor? : two.attrFor? = one.attrFor?
  reads : ∀ first second, related first second → ∀ object definition,
    one.world.Provides definition → definition.hasFlag .dark = false →
      ¬ hidden object definition →
        (two.world.readWith second object definition).1 =
            (one.world.readWith first object definition).1 ∧
          related (one.world.readWith first object definition).2
            (two.world.readWith second object definition).2
  locks : ∀ object, ¬ hidden object (.ofBuiltin .lock)

/-- Whether a lock has been entered that may see something hidden. -/
def Exposed (ev : Evaluator) (hidden : Dbref → AttrDef → Prop) (state : Evaluation) : Prop :=
  ∃ entry ∈ state.entered, ∃ object definition,
    hidden object definition ∧ ev.canSee entry.1 object definition = true

/-- States of two evaluations that have come equally far, for an actor of whom nothing is hidden. -/
structure Abreast (ev : Evaluator) (related : ReadCache → ReadCache → Prop)
    (hidden : Dbref → AttrDef → Prop) (levels : Nat) (state other : Evaluation) : Prop where
  same : SameButCache related state other
  actor : ∀ definition, ¬ hidden state.actor definition
  room : ev.limits.maxLockDepth ≤ levels + state.depth

/-- States that are abreast inside a lock that may see nothing hidden. -/
structure AbreastUnseeing (ev : Evaluator) (related : ReadCache → ReadCache → Prop)
    (hidden : Dbref → AttrDef → Prop) (levels : Nat) (state other : Evaluation) : Prop
    extends ev.Abreast related hidden levels state other where
  unseeing : ∀ object definition, hidden object definition →
    ev.canSee state.locked object definition = false

theorem Exposed.of_keeps {ev : Evaluator} {hidden : Dbref → AttrDef → Prop}
    {before after : Evaluation} (exposed : ev.Exposed hidden before)
    (keeps : ev.Keeps before after) : ev.Exposed hidden after := by
  obtain ⟨entry, member, sees⟩ := exposed
  obtain ⟨opened, entered, -⟩ := keeps.entered
  exact ⟨entry, entered ▸ List.mem_append_left opened member, sees⟩

namespace Alike

variable {one two : Evaluator} {related : ReadCache → ReadCache → Prop}
  {hidden : Dbref → AttrDef → Prop} {levels : Nat}

theorem warnOwner (alike : one.Alike two related hidden) (before behind : Text) :
    Follows (SameButCache related) (fun _ => False)
      (fun state => (false, one.warnOwner before behind state))
      (fun state => (false, two.warnOwner before behind state)) := by
  rintro state _ ⟨cache, rfl, caches⟩
  unfold Evaluator.warnOwner
  simp only [alike.ownerOf, alike.isValid, alike.shown]
  split <;> exact .inr ⟨trivial, cache, rfl, caches⟩

theorem compare (alike : one.Alike two related hidden) (state : Evaluation) (cache : ReadCache)
    (object : Dbref) (kind : RefKind) :
    two.compare { state with cache := cache } object kind = one.compare state object kind := by
  cases kind <;> simp only [Evaluator.compare, alike.carries, alike.isValid]

/-- A test that is ungated only of the actor reads nothing hidden. -/
theorem test (alike : one.Alike two related hidden) {state other : Evaluation}
    (abreast : one.AbreastUnseeing related hidden levels state other) (object : Dbref)
    (name pattern : Text) (gated : Bool) (ofActor : gated = false → object = state.actor) :
    (two.test object name pattern gated other).1 = (one.test object name pattern gated state).1 ∧
      one.AbreastUnseeing related hidden levels (one.test object name pattern gated state).2
        (two.test object name pattern gated other).2 := by
  obtain ⟨⟨⟨cache, rfl, caches⟩, actor, room⟩, unseeing⟩ := abreast
  have stays : one.AbreastUnseeing related hidden levels state { state with cache := cache } :=
    ⟨⟨⟨cache, rfl, caches⟩, actor, room⟩, unseeing⟩
  unfold Evaluator.test
  rw [alike.isValid, alike.attrFor?, alike.canSee]
  split
  · exact ⟨rfl, stays⟩
  · cases named : one.attrFor? object name with
    | none => exact ⟨rfl, stays⟩
    | some definition =>
        dsimp only
        split
        · exact ⟨rfl, stays⟩
        · next shows =>
          split
          · exact ⟨rfl, stays⟩
          · next passed =>
            have seen : ¬ hidden object definition := by
              intro here
              cases gated with
              | false => exact actor definition (ofActor rfl ▸ here)
              | true => simp [unseeing object definition here] at passed
            obtain ⟨value, behind⟩ := alike.reads state.cache cache caches object definition
              (World.provides_of_attrFor? named) (Bool.eq_false_iff.mpr shows) seen
            exact ⟨congrArg (Pattern.accepts pattern) value, ⟨⟨_, rfl, behind⟩, actor, room⟩,
              unseeing⟩

theorem parallel (alike : one.Alike two related hidden)
    (enters : ∀ text, Follows (one.Abreast related hidden levels) (one.Exposed hidden)
      (one.enter text) (two.enter text)) :
    Parallel one two one.enter two.enter (one.AbreastUnseeing related hidden levels)
      (one.Exposed hidden) where
  actor := by
    rintro state _ ⟨⟨⟨cache, rfl, -⟩, -, -⟩, -⟩
    rfl
  resolves := by
    rintro state _ ⟨⟨⟨cache, rfl, -⟩, -, -⟩, -⟩ name
    rw [alike.resolve]
  compares := by
    rintro state _ ⟨⟨⟨cache, rfl, -⟩, -, -⟩, -⟩ object kind
    exact alike.compare state cache object kind
  sees := by
    rintro state _ ⟨⟨⟨cache, rfl, -⟩, -, -⟩, -⟩ object
    rw [alike.canSee]
  tests := fun object name pattern gated _ _ abreast ofActor =>
    .inr (alike.test abreast object name pattern gated ofActor)
  refuses := by
    rintro state _ ⟨⟨⟨cache, rfl, caches⟩, actor, room⟩, unseeing⟩
    obtain ⟨news, refuses⟩ := one.refuseNesting_frame state
    obtain impossible | ⟨answer, same⟩ := alike.warnOwner "Warning: lock nested too deeply on ".toList
      ['.'] state _ ⟨cache, rfl, caches⟩
    · exact impossible.elim
    · refine .inr ⟨answer, ⟨same, ?_, ?_⟩, ?_⟩ <;> rw [refuses]
      exacts [actor, room, unseeing]
  indirect := by
    rintro object state _ ⟨⟨⟨cache, rfl, caches⟩, actor, room⟩, unseeing⟩
    obtain ⟨text, behind⟩ := alike.reads state.cache cache caches object (.ofBuiltin .lock)
      (.inl ⟨.lock, rfl⟩) (by decide) (alike.locks object)
    have abreast : one.Abreast related hidden levels
        { (one.read object (.ofBuiltin .lock) state).2 with locked := object }
        { (two.read object (.ofBuiltin .lock) { state with cache := cache }).2 with
          locked := object } := ⟨⟨_, rfl, behind⟩, actor, room⟩
    unfold Evaluator.indirect
    dsimp only
    rw [show (two.read object (.ofBuiltin .lock) { state with cache := cache }).1 = _ from text]
    rcases enters _ _ _ abreast with exposed | ⟨passed, ⟨last, after, caches⟩, actor, room⟩
    · exact .inl exposed
    · refine .inr ⟨passed, ⟨⟨last, ?_, caches⟩, actor, room⟩, unseeing⟩
      exact congrArg (fun behind : Evaluation => { behind with locked := state.locked }) after
  stays := fun tree state exposed => exposed.of_keeps (.eval one tree state)

/-- What is hidden makes a difference to entering a lock only if some lock may see it. -/
theorem follows_enter (alike : one.Alike two related hidden) (levels : Nat) (text : Text) :
    Follows (one.Abreast related hidden levels) (one.Exposed hidden) (one.enter text)
      (two.enter text) := by
  rintro state _ ⟨⟨cache, rfl, caches⟩, actor, room⟩
  by_cases free : text = []
  · rw [free, enter_nil, enter_nil]
    exact .inr ⟨rfl, ⟨cache, rfl, caches⟩, actor, room⟩
  · by_cases full : one.limits.maxLockDepth ≤ state.depth
    · have fullToo :
          two.limits.maxLockDepth ≤ ({ state with cache := cache } : Evaluation).depth := by
        rwa [alike.limits]
      rw [enter_of_le free full, enter_of_le free fullToo]
      obtain ⟨news, refuses⟩ := one.refuseDepth_frame { state with depth := state.depth + 1 }
      obtain impossible | ⟨answer, same⟩ := alike.warnOwner "Warning: recursion detected in ".toList
        " lock.".toList { state with depth := state.depth + 1 } _ ⟨cache, rfl, caches⟩
      · exact impossible.elim
      · refine .inr ⟨answer, same, ?_, ?_⟩ <;> rw [refuses]
        exacts [actor, Nat.le_succ_of_le room]
    · have left : state.depth < one.limits.maxLockDepth := Nat.lt_of_not_le full
      have leftToo :
          ({ state with cache := cache } : Evaluation).depth < two.limits.maxLockDepth := by
        rwa [alike.limits]
      obtain ⟨fewer, rfl⟩ : ∃ fewer, levels = fewer + 1 :=
        Nat.exists_eq_succ_of_ne_zero (by omega)
      have trees : two.treeOf = one.treeOf := by
        funext actor locked text
        rw [treeOf, treeOf, alike.functions, alike.limits]
      rw [enter_of_lt free left, enter_of_lt free leftToo, trees]
      by_cases sees : ∃ object definition,
          hidden object definition ∧ one.canSee state.locked object definition = true
      · have exposed : one.Exposed hidden (state.entering text) :=
          ⟨_, List.mem_append_right _ (List.mem_singleton_self _), sees⟩
        exact .inl (exposed.of_keeps (.eval one _ _))
      · have unseeing (object : Dbref) (definition : AttrDef) (here : hidden object definition) :
            one.canSee state.locked object definition = false :=
          Bool.eq_false_iff.mpr fun seen => sees ⟨object, definition, here, seen⟩
        have opened : one.AbreastUnseeing related hidden fewer (state.entering text)
            ({ state with cache := cache }.entering text) :=
          ⟨⟨⟨cache, rfl, caches⟩, actor, by rw [Nat.add_right_comm] at room; exact room⟩, unseeing⟩
        rcases (alike.parallel (alike.follows_enter fewer)).eval
          (one.treeOf state.actor state.locked text) _ _ opened with exposed | ⟨answer, behind⟩
        · exact .inl exposed
        · exact .inr ⟨answer, behind.same, behind.actor, by have := behind.room; omega⟩
termination_by levels

/-- Evaluators that see the same but for what is hidden come to the same verdict and tell the same,
unless a lock is entered that may see something hidden. -/
theorem evaluate_or_exposed (alike : one.Alike two related hidden) {first second : ReadCache}
    (caches : related first second) {actor : Dbref} (bare : ∀ definition, ¬ hidden actor definition)
    (locked : Dbref) (text : Text) (zone : Dbref) :
    one.Exposed hidden (one.evaluate first actor locked text zone).2 ∨
      (two.evaluate second actor locked text zone).1 =
          (one.evaluate first actor locked text zone).1 ∧
        SameButCache related (one.evaluate first actor locked text zone).2
          (two.evaluate second actor locked text zone).2 := by
  have starts : SameButCache related (.start actor locked zone first)
      (.start actor locked zone second) := ⟨second, rfl, caches⟩
  by_cases valid : one.world.isValid locked = true
  · by_cases short : Text.bytes text < one.limits.bufferLen
    · rw [evaluate_eq_enter valid short,
        evaluate_eq_enter (alike.isValid ▸ valid) (alike.limits ▸ short)]
      rcases alike.follows_enter one.limits.maxLockDepth text _ _
        ⟨starts, bare, Nat.le_add_right _ _⟩ with exposed | ⟨answer, behind⟩
      · exact .inl exposed
      · exact .inr ⟨answer, behind.same⟩
    · unfold Evaluator.evaluate
      dsimp only
      rw [alike.isValid, alike.limits]
      split
      · exact .inr ⟨rfl, starts⟩
      · split
        · exact .inr ⟨rfl, starts⟩
        · rw [if_pos (Nat.le_of_not_lt short), if_pos (Nat.le_of_not_lt short)]
          exact .inr ((alike.warnOwner _ _ _ _ starts).resolve_left id)
  · unfold Evaluator.evaluate
    dsimp only
    rw [alike.isValid, if_pos (by simpa using valid), if_pos (by simpa using valid)]
    exact .inr ⟨rfl, starts⟩

/-- Evaluators that see the same come to the same verdict and tell the same, and still see the same
afterwards. -/
theorem evaluate (alike : one.Alike two related fun _ _ => False) {first second : ReadCache}
    (caches : related first second) (actor locked : Dbref) (text : Text) (zone : Dbref) :
    (two.evaluate second actor locked text zone).1 =
        (one.evaluate first actor locked text zone).1 ∧
      SameButCache related (one.evaluate first actor locked text zone).2
        (two.evaluate second actor locked text zone).2 := by
  rcases alike.evaluate_or_exposed caches (fun _ => id) locked text zone with exposed | same
  · obtain ⟨-, -, -, -, impossible, -⟩ := exposed
    exact impossible.elim
  · exact same

end Alike
end Evaluator
end WorldLocks
