import WorldLocks.Proofs.Cache.Evaluation
import WorldLocks.Proofs.Cache.Loading
import WorldLocks.Proofs.References.Exact

/-! Histories.  What happens to a world is an operation, a reading or an evaluation, each with an
answer.  If readings are made through handles that are up to date, no answer tells whether the world
remembers readings. -/

set_option autoImplicit false

namespace WorldLocks

/-! ## Events -/

/-- What evaluations are given by the program around them.  It may look at the world, but not at its
cache. -/
structure Host where
  matcher : World → Matcher
  canSee : World → VisibilityRule
  functions : FunctionEvaluator
  limits : Limits
  matcher_withCache : ∀ (world : World) cache, matcher (world.withCache cache) = matcher world
  canSee_withCache : ∀ (world : World) cache, canSee (world.withCache cache) = canSee world

namespace Host

def evaluator (host : Host) (world : World) : Evaluator where
  world := world
  matcher := host.matcher world
  canSee := host.canSee world
  functions := host.functions
  limits := host.limits

def evaluate (host : Host) (world : World) (actor locked : Dbref) (text : Text) (zone : Dbref) :
    Bool × Evaluation :=
  (host.evaluator world).evaluate world.cache actor locked text zone

/-- The host that leaves names and visibility to the world. -/
def own (functions : FunctionEvaluator) (limits : Limits) : Host where
  matcher := World.matcher
  canSee := World.canSee
  functions := functions
  limits := limits
  matcher_withCache := fun _ _ => rfl
  canSee_withCache := fun _ _ => rfl

theorem evaluator_withCache (host : Host) (world : World) (cache : ReadCache) :
    host.evaluator (world.withCache cache) = (host.evaluator world).withCache cache := by
  simp only [evaluator, Evaluator.withCache, host.matcher_withCache, host.canSee_withCache]

variable {world : World}

theorem evaluate_of_related {related : ReadCache → ReadCache → Prop}
    (keeps : world.KeptByReading related) {one two : ReadCache} (alike : related one two)
    (host : Host) (actor locked : Dbref) (text : Text) (zone : Dbref) :
    (host.evaluate (world.withCache two) actor locked text zone).1 =
        (host.evaluate (world.withCache one) actor locked text zone).1 ∧
      SameButCache related (host.evaluate (world.withCache one) actor locked text zone).2
        (host.evaluate (world.withCache two) actor locked text zone).2 := by
  have same : host.evaluator (world.withCache two) =
      (host.evaluator (world.withCache one)).withCache two := by
    rw [host.evaluator_withCache, host.evaluator_withCache]
    rfl
  unfold evaluate
  rw [same]
  exact Evaluator.evaluate_of_related keeps alike two actor locked text zone

/-- An evaluation leaves the cache switched on or off as it is. -/
theorem enabled_evaluate (host : Host) (cache : ReadCache) (actor locked : Dbref) (text : Text)
    (zone : Dbref) :
    (host.evaluate (world.withCache cache) actor locked text zone).2.cache.enabled =
      cache.enabled := by
  have keeps : world.KeptByReading fun one two => one = two ∧ one.enabled = cache.enabled := by
    rintro one _ ⟨rfl, enabled⟩ object definition -
    exact ⟨rfl, rfl, (World.enabled_readWith ..).trans enabled⟩
  obtain ⟨-, -, -, -, enabled⟩ :=
    evaluate_of_related keeps ⟨rfl, rfl⟩ host actor locked text zone
  exact enabled

end Host

inductive Event where
  | perform (operation : Operation)
  | read (object : Dbref) (handle : AttrDef)
  | evaluate (host : Host) (actor locked : Dbref) (text : Text) (zone : Dbref)
  /-- Time passes. -/
  | wait (clock : Int)

namespace Event

inductive Answer where
  | performed (result : Except LockError Operation.Answer) (told : List Message)
  | value (value : Text)
  | verdict (passed : Bool) (told : List Message)
  | nothing

/-- What an event is answered with, and the world after it. -/
def happen (event : Event) (world : World) : Answer × World :=
  match event with
  | perform operation =>
    let ((result, told), after) := operation.report world
    (.performed result told, after)
  | read object handle =>
    let (value, after) := world.read object handle
    (.value value, after)
  | evaluate host actor locked text zone =>
    let (passed, state) := host.evaluate world actor locked text zone
    (.verdict passed state.told, { world with cache := state.cache })
  | wait clock => (.nothing, { world with clock := clock })

end Event

namespace World

/-- The answers to a history, in order. -/
def answers (world : World) : List Event → List Event.Answer
  | [] => []
  | event :: later => (event.happen world).1 :: (event.happen world).2.answers later

/-! ## One event -/

variable {world : World}

theorem withCache_eq (world : World) {cache other : ReadCache}
    (enabled : other.enabled = cache.enabled) :
    { world.withCache cache with cache := other } = world.withCache other := by
  simp only [withCache, enabled]

theorem happen_read (world : World) (object : Dbref) (handle : AttrDef) (cache : ReadCache) :
    (Event.read object handle).happen (world.withCache cache) =
      (.value (world.readWith cache object handle).1,
        world.withCache (world.readWith cache object handle).2) :=
  congrArg (Prod.mk _) (withCache_eq world (enabled_readWith world cache object handle))

theorem happen_evaluate (world : World) (host : Host) (actor locked : Dbref) (text : Text)
    (zone : Dbref) (cache : ReadCache) :
    (Event.evaluate host actor locked text zone).happen (world.withCache cache) =
      (.verdict (host.evaluate (world.withCache cache) actor locked text zone).1
          (host.evaluate (world.withCache cache) actor locked text zone).2.told,
        world.withCache (host.evaluate (world.withCache cache) actor locked text zone).2.cache) :=
  congrArg (Prod.mk _)
    (withCache_eq world (host.enabled_evaluate cache actor locked text zone))

/-- A relation between caches that no fine event breaks or shows in its answer. -/
structure Bisimulation (fine : Event → World → Prop)
    (related : World → ReadCache → ReadCache → Prop) : Prop where
  reads : ∀ (world : World) one two object handle, world.Covered → related world one two →
    fine (.read object handle) world →
    (world.readWith one object handle).1 = (world.readWith two object handle).1 ∧
      related world (world.readWith one object handle).2 (world.readWith two object handle).2
  evaluates : ∀ (world : World) host actor locked text zone, world.Covered →
    fine (.evaluate host actor locked text zone) world → world.KeptByReading (related world)
  spares : ∀ (world after : World) one two, world.SameSources after → related world one two →
    related after one two
  forgets : ∀ (world after : World) (one two : ReadCache), related world one two →
    related after one.flush two.flush
  waits : ∀ (world : World) one two clock, related world one two →
    related { world with clock := clock } one two

theorem Covered.withCache (covered : world.Covered) (cache : ReadCache) :
    (world.withCache cache).Covered := by
  obtain ⟨loose, balanced⟩ := covered
  exact ⟨loose, balanced.wellFormed, balanced.counts, balanced.tidy⟩

theorem Covered.of_withCache {cache : ReadCache} (covered : (world.withCache cache).Covered) :
    world.Covered := by
  obtain ⟨loose, balanced⟩ := covered
  exact ⟨loose, balanced.wellFormed, balanced.counts, balanced.tidy⟩

theorem happen_perform {operation : Operation} {cache kept : ReadCache} {after : World}
    {result : Except LockError Operation.Answer × List Message}
    (reports : operation.report (world.withCache cache) = (result, after.withCache kept)) :
    (Event.perform operation).happen (world.withCache cache) =
      (.performed result.1 result.2, after.withCache kept) :=
  congrArg (fun report => (Event.Answer.performed report.1.1 report.1.2, report.2)) reports

theorem Covered.of_report (covered : world.Covered) {operation : Operation}
    {cache kept : ReadCache} {after : World}
    {result : Except LockError Operation.Answer × List Message}
    (reports : operation.report (world.withCache cache) = (result, after.withCache kept)) :
    after.Covered := by
  have performed := (covered.withCache cache).perform operation
  have same : (operation.perform (world.withCache cache)).world = after.withCache kept :=
    congrArg Prod.snd reports
  rw [same] at performed
  exact performed.of_withCache

/-- A fine event is answered alike and keeps the caches related. -/
theorem Bisimulation.happen {fine : Event → World → Prop}
    {related : World → ReadCache → ReadCache → Prop} (bisimulation : Bisimulation fine related)
    {one two : ReadCache} (covered : world.Covered) (alike : related world one two) {event : Event}
    (isFine : fine event world) :
    ∃ answer after behind behindTwo, event.happen (world.withCache one) =
        (answer, World.withCache after behind) ∧
      event.happen (world.withCache two) = (answer, after.withCache behindTwo) ∧
        after.Covered ∧ related after behind behindTwo := by
  cases event with
  | perform operation =>
      obtain ⟨result, after, ⟨spares, same⟩ | forgets⟩ := blind_report operation world
      · exact ⟨_, after, one, two, happen_perform (spares one), happen_perform (spares two),
          covered.of_report (spares one), bisimulation.spares world after one two same alike⟩
      · exact ⟨_, after, _, _, happen_perform (forgets one), happen_perform (forgets two),
          covered.of_report (forgets one), bisimulation.forgets world after one two alike⟩
  | read object handle =>
      obtain ⟨value, behind⟩ := bisimulation.reads world one two object handle covered alike isFine
      refine ⟨_, world, _, _, happen_read world object handle one, ?_, covered, behind⟩
      rw [value]
      exact happen_read world object handle two
  | evaluate host actor locked text zone =>
      have keeps := bisimulation.evaluates world host actor locked text zone covered isFine
      obtain ⟨verdict, cache, same, behind⟩ :=
        host.evaluate_of_related keeps alike actor locked text zone
      refine ⟨_, world, _, cache, happen_evaluate world host actor locked text zone one, ?_,
        covered, behind⟩
      rw [happen_evaluate world host actor locked text zone two, verdict, same]
  | wait clock =>
      obtain ⟨loose, balanced⟩ := covered
      exact ⟨.nothing, { world with clock := clock }, one, two, rfl, rfl,
        ⟨loose, balanced.wellFormed, balanced.counts, balanced.tidy⟩,
        bisimulation.waits world one two clock alike⟩

end World

/-! ## Cache on and cache off -/

/-- Whether an event is no reading, or one through a handle that is up to date. -/
def Event.ReadsNow (event : Event) (world : World) : Prop :=
  match event with
  | .read _ handle => world.IsCurrent handle
  | .perform _ | .evaluate .. | .wait _ => True

instance (event : Event) (world : World) : Decidable (event.ReadsNow world) := by
  cases event <;> unfold Event.ReadsNow <;> infer_instance

namespace World

/-- Whether every reading of a history is made through a handle that is then up to date. -/
def ReadsCurrent (world : World) : List Event → Prop
  | [] => True
  | event :: later => event.ReadsNow world ∧ (event.happen world).2.ReadsCurrent later

instance decidableReadsCurrent : (world : World) → (history : List Event) →
    Decidable (world.ReadsCurrent history)
  | _, [] => .isTrue trivial
  | world, event :: later =>
    have := decidableReadsCurrent (event.happen world).2 later
    inferInstanceAs (Decidable (_ ∧ _))

variable {world : World} {one two : ReadCache}

/-- Caches that are emptied answer alike. -/
theorem alikeAmong_flush (world : World) (readings : Dbref → AttrDef → Prop) (one two : ReadCache) :
    world.AlikeAmong readings one.flush two.flush :=
  alikeAmong_of_entries_nil world readings rfl rfl

theorem AlikeNow.readBoth (alike : world.AlikeNow one two) (covered : world.Covered)
    (object : Dbref) {handle : AttrDef} (current : world.IsCurrent handle) :
    (world.readWith one object handle).1 = (world.readWith two object handle).1 ∧
      world.AlikeNow (world.readWith one object handle).2 (world.readWith two object handle).2 :=
  ⟨alike object handle current, (covered.alikeNow_read current object one).trans
    (alike.trans (covered.alikeNow_read current object two).symm)⟩

/-- Caches that answer alike go on to answer alike. -/
theorem bisimulation_alikeNow : Bisimulation Event.ReadsNow AlikeNow where
  reads := fun _ _ _ object _ covered alike current => alike.readBoth covered object current
  evaluates := by
    intro world host actor locked text zone covered _ one two alike object definition provides
    exact alike.readBoth covered object (covered.isCurrent_of_provides provides)
  spares := by
    intro world after one two same alike object handle current
    exact same.alikeAmong alike object handle (same.isCurrent current)
  forgets := fun _ after one two _ => alikeAmong_flush after _ one two
  waits := fun _ _ _ _ alike => alike

theorem answers_of_alikeNow (covered : world.Covered) (alike : world.AlikeNow one two)
    {history : List Event} (current : (world.withCache one).ReadsCurrent history) :
    (world.withCache one).answers history = (world.withCache two).answers history := by
  induction history generalizing world one two with
  | nil => rfl
  | cons event later ih =>
      obtain ⟨now, rest⟩ := current
      obtain ⟨answer, after, behind, behindTwo, first, second, coveredAfter, alikeAfter⟩ :=
        bisimulation_alikeNow.happen covered alike now
      unfold answers
      rw [first] at rest ⊢
      rw [second, ih coveredAfter alikeAfter rest]

end World

/-! ## Whole runs -/

/-- What a run starts from. -/
inductive Origin where
  | empty (config : WorldConfig)
  | fixture (fixture : WorldFixture)

/-- The world that a run starts in, with the cache on or off. -/
def Origin.load (origin : Origin) (remembers : Bool) (clock : Int) : Except FixtureError World :=
  match origin with
  | empty config => .ok (.new { config with attrCache := remembers } clock)
  | fixture listed =>
    World.ofFixture { listed with config := { listed.config with attrCache := remembers } } clock

theorem Origin.loadsAlike (origin : Origin) (clock : Int) :
    LoadsAlike fun remembers => origin.load remembers clock := by
  cases origin with
  | empty config => exact ⟨.ok (.new config clock), fun _ => rfl⟩
  | fixture listed => exact World.loadsAlike_ofFixture listed clock

theorem Origin.isStart {origin : Origin} {remembers : Bool} {clock : Int} {world : World}
    (loads : origin.load remembers clock = .ok world) : world.IsStart := by
  cases origin with
  | empty config =>
      obtain rfl := Except.ok.inj loads
      exact .empty _ clock
  | fixture listed => exact .loaded loads

namespace World

/-- The answers to a history whose readings are made through handles that are up to date are the
same with the cache on and with the cache off. -/
theorem answers_cache_on_eq_off (origin : Origin) (clock : Int) (history : List Event)
    (current : ∀ world, origin.load true clock = .ok world → world.ReadsCurrent history) :
    (origin.load true clock).map (·.answers history) =
      (origin.load false clock).map (·.answers history) := by
  obtain ⟨outcome, alike⟩ := origin.loadsAlike clock
  change ∀ remembers, origin.load remembers clock = _ at alike
  cases outcome with
  | error error =>
      rw [alike, alike]
      rfl
  | ok world =>
      have loaded : origin.load true clock = .ok (world.withCache (.blank true)) := alike true
      have covered : world.Covered :=
        Covered.of_withCache ⟨_, (Origin.isStart loaded).inBalance⟩
      rw [alike, alike]
      apply congrArg Except.ok
      exact answers_of_alikeNow covered (alikeAmong_flush world _ (.blank true) (.blank false))
        (current _ loaded)

/-- A child reads an inherited value, again after its parent is given another one, and once more
after the attribute is no longer inherited. -/
theorem answers_cache_on_eq_off_inherited :
    let foo : AttrDef := ⟨.declared 0, "FOO".toList, .ofList [.inherit], .system⟩
    let plain : AttrDef := ⟨.declared 0, "FOO".toList, .empty, .system⟩
    let history : List Event := [
      .perform (.create "Hall".toList .room .nothing .nothing),
      .perform (.create "Alice".toList .player .nothing .system),
      .perform (.declareAttr .system "FOO".toList (.ofList [.inherit])),
      .perform (.addParent .root .system),
      .perform (.setValue .system foo "old".toList),
      .read .root foo,
      .perform (.setValue .system foo "new".toList),
      .read .root foo,
      .perform (.declareAttr .system "FOO".toList .empty),
      .read .root plain]
    ((Origin.empty {}).load true 0).map (·.answers history) =
      ((Origin.empty {}).load false 0).map (·.answers history) := by
  intro foo plain history
  refine answers_cache_on_eq_off (.empty {}) 0 history fun world loads => ?_
  obtain rfl := Except.ok.inj loads
  decide +kernel

end World
end WorldLocks
