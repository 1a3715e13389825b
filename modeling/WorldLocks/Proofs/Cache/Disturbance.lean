import WorldLocks.Proofs.Cache.History

/-! What one reading more does to a history.  A cache remembers a reading without the flags of the
handle that it was made through.  So a reading through an old handle can show in later answers, but
only until the cache is emptied, and only in readings of the same attribute of the same object
through handles that would have found another value. -/

set_option autoImplicit false

namespace WorldLocks

/-- Whether an event reads nothing that an earlier reading of an object could have changed. -/
def Event.AgreesWith (object : Dbref) (handle : AttrDef) (event : Event) (world : World) : Prop :=
  match event with
  | .read other second => other = object → world.AgreeOn object handle second
  | .evaluate .. => ∀ definition, world.Provides definition → world.AgreeOn object handle definition
  | .perform _ | .wait _ => True

attribute [ext] ReadCache

namespace World

/-- Whether every event agrees with an earlier reading of an object until the cache is empty. -/
def Undisturbed (object : Dbref) (handle : AttrDef) (world : World) : List Event → Prop
  | [] => True
  | event :: later =>
    world.cache.entries = [] ∨
      event.AgreesWith object handle world ∧
        (event.happen world).2.Undisturbed object handle later

/-- Two caches of which the first has perhaps remembered one reading more. -/
inductive OneMore (object : Dbref) (handle : AttrDef) (world : World) :
    ReadCache → ReadCache → Prop where
  | same (cache : ReadCache) : OneMore object handle world cache cache
  | more {one two : ReadCache} (remembers : one.entries ≠ []) (enabled : one.enabled = two.enabled)
      (alike : world.AlikeAmong
        (fun other second => other = object → world.AgreeOn object handle second) one two) :
      OneMore object handle world one two

variable {world : World} {one two : ReadCache} {object : Dbref} {handle : AttrDef}

/-- Readings only add to a cache. -/
theorem entries_suffix_readWith (world : World) (cache : ReadCache) (object : Dbref)
    (handle : AttrDef) : cache.entries <:+ (world.readWith cache object handle).2.entries := by
  unfold readWith
  split
  · exact List.suffix_rfl
  · split
    · exact List.suffix_rfl
    · split
      · exact List.suffix_rfl
      · unfold ReadCache.fill
        split
        · exact List.suffix_cons _ _
        · exact List.suffix_rfl

theorem remembers_readWith {cache : ReadCache} (remembers : cache.entries ≠ []) (other : Dbref)
    (second : AttrDef) : (world.readWith cache other second).2.entries ≠ [] := by
  intro forgotten
  have kept := entries_suffix_readWith world cache other second
  rw [forgotten] at kept
  exact remembers (List.suffix_nil.mp kept)

theorem OneMore.readBoth (more : OneMore object handle world one two) {other : Dbref}
    {second : AttrDef} (agrees : other = object → world.AgreeOn object handle second) :
    (world.readWith one other second).1 = (world.readWith two other second).1 ∧
      OneMore object handle world (world.readWith one other second).2
        (world.readWith two other second).2 := by
  cases more with
  | same => exact ⟨rfl, .same _⟩
  | more remembers enabled alike =>
      refine ⟨alike other second agrees, .more (remembers_readWith remembers other second) ?_
        (alike.readBoth enabled agrees)⟩
      rw [enabled_readWith, enabled_readWith, enabled]

/-- One reading more shows in no event that agrees with it. -/
theorem bisimulation_oneMore (object : Dbref) (handle : AttrDef) :
    Bisimulation (Event.AgreesWith object handle) (OneMore object handle) where
  reads := fun _ _ _ _ _ _ more agrees => more.readBoth agrees
  evaluates := by
    intro world host actor locked text zone _ agrees one two more other definition provides
    exact more.readBoth fun _ => agrees definition provides
  spares := by
    intro world after one two same more
    cases more with
    | same => exact .same _
    | more remembers enabled alike =>
        refine .more remembers enabled fun other second agrees => ?_
        exact same.alikeAmong alike other second fun here => same.agreeOn.mp (agrees here)
  forgets := by
    intro world after one two more
    cases more with
    | same => exact .same _
    | more _ enabled _ =>
        have same : one.flush = two.flush := by simp only [ReadCache.flush, enabled]
        rw [same]
        exact .same two.flush
  waits := by
    intro world one two clock more
    cases more with
    | same => exact .same _
    | more remembers enabled alike => exact .more remembers enabled alike

theorem answers_of_oneMore (covered : world.Covered) (more : OneMore object handle world one two)
    {history : List Event}
    (undisturbed : (world.withCache one).Undisturbed object handle history) :
    (world.withCache one).answers history = (world.withCache two).answers history := by
  induction history generalizing world one two with
  | nil => rfl
  | cons event later ih =>
      cases more with
      | same => rfl
      | more remembers enabled alike =>
          obtain ⟨agrees, rest⟩ := undisturbed.resolve_left remembers
          obtain ⟨answer, after, behind, behindTwo, first, second, coveredAfter, moreAfter⟩ :=
            (bisimulation_oneMore object handle).happen covered
              (.more remembers enabled alike) agrees
          unfold answers
          rw [first] at rest ⊢
          rw [second, ih coveredAfter moreAfter rest]

/-- A reading that is remembered, or that has left everything as it was. -/
theorem oneMore_readWith (world : World) (cache : ReadCache) (object : Dbref) (handle : AttrDef) :
    OneMore object handle world (world.readWith cache object handle).2 cache := by
  by_cases remembers : (world.readWith cache object handle).2.entries = []
  · have kept := entries_suffix_readWith world cache object handle
    rw [remembers] at kept
    have same : (world.readWith cache object handle).2 = cache :=
      ReadCache.ext (enabled_readWith ..) (remembers.trans (List.suffix_nil.mp kept).symm)
    rw [same]
    exact .same cache
  · refine .more remembers (enabled_readWith ..) fun other second agrees => ?_
    exact readWith_readWith_of_agreeOn agrees cache

/-! ## Reachable worlds -/

theorem read_eq_withCache (steady : world.withCache world.cache = world) (object : Dbref)
    (handle : AttrDef) :
    (world.read object handle).2 =
      world.withCache (world.readWith world.cache object handle).2 := by
  have behind := withCache_eq world (enabled_readWith world world.cache object handle)
  rwa [steady] at behind

theorem IsStart.withCache_self (starts : world.IsStart) : world.withCache world.cache = world := by
  cases starts with
  | empty config clock => rfl
  | @loaded fixture clock world loads =>
      obtain ⟨outcome, alike⟩ := loadsAlike_ofFixture fixture clock
      have loaded : outcome.map (·.withCache (.blank fixture.config.attrCache)) = .ok world :=
        (alike fixture.config.attrCache).symm.trans loads
      obtain ⟨bare, -, rfl⟩ := map_eq_ok.mp loaded
      rfl

theorem exists_perform_withCache (operation : Operation) (world : World) (cache : ReadCache) :
    ∃ after kept, (operation.perform (world.withCache cache)).world = withCache after kept := by
  obtain ⟨result, after, ⟨spares, -⟩ | forgets⟩ := blind_report operation world
  · exact ⟨after, cache, congrArg Prod.snd (spares cache)⟩
  · exact ⟨after, _, congrArg Prod.snd (forgets cache)⟩

/-- A reachable world has its cache on if and only if it is configured so. -/
theorem Reachable.withCache_self {allowed : Operation → Prop}
    (reachable : Reachable allowed world) : world.withCache world.cache = world := by
  obtain ⟨start, starts, run⟩ := reachable
  induction run with
  | refl => exact starts.withCache_self
  | @perform world operation _ _ ih =>
      obtain ⟨after, kept, same⟩ := exists_perform_withCache operation world world.cache
      rw [ih] at same
      rw [same]
      rfl
  | @read world object handle _ ih =>
      rw [read_eq_withCache ih]
      rfl
  | wait clock _ ih =>
      exact congrArg (fun world : World => { world with clock := clock }) ih

/-- Of the readings that come next, one reading more changes those that it meets, and it makes these
repeat its own answer.  It changes no answer as long as what is read agrees with it until the cache
is empty; and it changes none at all if readings are made through handles that are up to date. -/
theorem answers_after_reading {allowed : Operation → Prop} (reachable : Reachable allowed world)
    (object : Dbref) (handle : AttrDef) :
    (∀ other second, ((world.read object handle).2.read other second).1 =
        if world.cache.enabled ∧ world.Meets object handle other second then
          (world.read object handle).1
        else (world.read other second).1) ∧
      (∀ history, (world.read object handle).2.Undisturbed object handle history →
        (world.read object handle).2.answers history = world.answers history) ∧
      ∀ history, world.IsCurrent handle → (world.read object handle).2.ReadsCurrent history →
        (world.read object handle).2.answers history = world.answers history := by
  have covered := reachable.covered
  have behind := read_eq_withCache reachable.withCache_self object handle
  have before : world.answers = (world.withCache world.cache).answers := by
    rw [reachable.withCache_self]
  refine ⟨fun other second => readWith_readWith world world.cache object other handle second,
    fun history undisturbed => ?_, fun history current readsCurrent => ?_⟩
  · rw [behind] at undisturbed ⊢
    rw [before]
    exact answers_of_oneMore covered (oneMore_readWith world world.cache object handle) undisturbed
  · rw [behind] at readsCurrent ⊢
    rw [before]
    exact answers_of_alikeNow covered (covered.alikeNow_read current object world.cache)
      readsCurrent

/-- A child reads an attribute through a handle from before it was inherited.  This makes the next
reading of it empty, but not a reading of the parent; a reading through the new handle changes
nothing. -/
theorem answers_after_reading_outdated :
    let outdated : AttrDef := ⟨.declared 0, "FOO".toList, .empty, .system⟩
    let current : AttrDef := ⟨.declared 0, "FOO".toList, .ofList [.inherit], .system⟩
    let world := Operation.performAll (.new {} 0) [
      .create "Hall".toList .room .nothing .nothing,
      .create "Alice".toList .player .nothing .system,
      .addParent .root .system,
      .declareAttr .system "FOO".toList .empty,
      .setValue .system outdated "val".toList,
      .declareAttr .system "FOO".toList (.ofList [.inherit])]
    (world.read .root current).1 = "val".toList ∧
      ((world.read .root outdated).2.read .root current).1 = [] ∧
      (world.read .root outdated).2.answers [.read .system current] =
        world.answers [.read .system current] ∧
      (world.read .root current).2.answers [.read .root current] =
        world.answers [.read .root current] := by
  intro outdated current world
  have reachable : Reachable (fun _ => True) world :=
    ⟨_, .empty {} 0, Leads.refl.performAll fun _ _ => trivial⟩
  obtain ⟨repeats, spares, -⟩ := answers_after_reading reachable .root outdated
  obtain ⟨-, -, keeps⟩ := answers_after_reading reachable .root current
  refine ⟨by decide +kernel, (repeats .root current).trans (by decide +kernel),
    spares _ (.inr ⟨fun same => absurd same (by decide), trivial⟩),
    keeps _ (by decide +kernel) (by decide +kernel)⟩

end World
end WorldLocks
