import WorldLocks.Fixture.Load
import WorldLocks.Proofs.Cache.Operations

/-! Loading and the cache.  A fixture loads alike whether the world remembers readings or not, and a
loaded world has nothing to remember yet. -/

set_option autoImplicit false

namespace WorldLocks

/-- Whether something is loaded alike with the cache on and off. -/
def LoadsAlike (load : Bool → Except FixtureError World) : Prop :=
  ∃ outcome : Except FixtureError World, ∀ remembers,
    load remembers = outcome.map (·.withCache (.blank remembers))

namespace LoadsAlike

theorem error (error : FixtureError) : LoadsAlike fun _ => .error error :=
  ⟨.error error, fun _ => rfl⟩

theorem ok (world : World) : LoadsAlike fun remembers => .ok (world.withCache (.blank remembers)) :=
  ⟨.ok world, fun _ => rfl⟩

theorem bind {load : Bool → Except FixtureError World} {next : World → Except FixtureError World}
    (loads : LoadsAlike load)
    (later : ∀ world : World,
      LoadsAlike fun remembers => next (world.withCache (.blank remembers))) :
    LoadsAlike fun remembers => load remembers >>= next := by
  obtain ⟨outcome | world, alike⟩ := loads
  · exact ⟨.error outcome, fun remembers => congrArg (· >>= next) (alike remembers)⟩
  · obtain ⟨final, alikeLater⟩ := later world
    exact ⟨final, fun remembers =>
      (congrArg (· >>= next) (alike remembers)).trans (alikeLater remembers)⟩

theorem foldlM {α : Type} {step : World → α → Except FixtureError World} (items : List α)
    (steps : ∀ (world : World) (item : α),
      LoadsAlike fun remembers => step (world.withCache (.blank remembers)) item)
    (world : World) :
    LoadsAlike fun remembers => items.foldlM step (world.withCache (.blank remembers)) := by
  induction items generalizing world with
  | nil => exact .ok world
  | cons item items ih =>
      simp only [List.foldlM_cons]
      exact (steps world item).bind ih

end LoadsAlike

namespace World

/-- An operation that finds the cache empty leaves it so. -/
theorem Blind.onBlank {α : Type} {operation : World → α × World} (blind : Blind operation)
    (world : World) : ∃ result, ∃ after : World, ∀ remembers,
      operation (world.withCache (.blank remembers)) =
        (result, after.withCache (.blank remembers)) := by
  obtain ⟨result, after, ⟨spares, -⟩ | forgets⟩ := blind world
  · exact ⟨result, after, fun remembers => spares (.blank remembers)⟩
  · exact ⟨result, after, fun remembers => forgets (.blank remembers)⟩

theorem loadsAlike_enlistChild (object : Dbref) (parents : List Dbref) (world : World) :
    LoadsAlike fun remembers =>
      (world.withCache (.blank remembers)).enlistChild object parents := by
  induction parents generalizing world with
  | nil => exact .ok world
  | cons parent later ih =>
      simp only [enlistChild, slot?_withCache, modify_withCache]
      split
      · exact ih _
      · exact .error _

theorem loadsAlike_loadRelations (object : Dbref) (fixture : ObjectFixture) (world : World) :
    LoadsAlike fun remembers =>
      loadRelations (world.withCache (.blank remembers)) object fixture := by
  have refers (remembers : Bool) :
      (world.withCache (.blank remembers)).mayReferTo = world.mayReferTo := rfl
  simp only [loadRelations, refers]
  split
  · exact .error _
  · simp only [relate, modify_withCache]
    refine (loadsAlike_enlistChild object fixture.parents _).bind fun enlisted => ?_
    simp only [settle, putInto_withCache]
    split <;> exact .ok _

theorem loadsAlike_loadDef (object : Dbref) (entry : Text × Text) (world : World) :
    LoadsAlike fun remembers => loadDef object (world.withCache (.blank remembers)) entry := by
  simp only [loadDef]
  split
  · next flags _ =>
    obtain ⟨result, after, same⟩ := (blind_declareAttr object entry.1 flags).onBlank world
    simp only [same]
    cases result with
    | error error => exact .error _
    | ok result => exact .ok after
  · exact .error _

theorem loadsAlike_loadValue (object : Dbref) (entry : Text × Text) (world : World) :
    LoadsAlike fun remembers => loadValue object (world.withCache (.blank remembers)) entry := by
  have named (remembers : Bool) : (world.withCache (.blank remembers)).namedAttr? object entry.1 =
      world.namedAttr? object entry.1 := rfl
  simp only [loadValue, named]
  split
  · exact .error _
  · next definition _ =>
    obtain ⟨result, after, same⟩ := (blind_setValue object definition entry.2).onBlank world
    simp only [same]
    cases result with
    | error error => exact .error _
    | ok result => exact .ok after

theorem loadsAlike_loadEach {load : World → Dbref → ObjectFixture → Except FixtureError World}
    (loads : ∀ (world : World) object fixture,
      LoadsAlike fun remembers => load (world.withCache (.blank remembers)) object fixture)
    (fixture : WorldFixture) (world : World) :
    LoadsAlike fun remembers => loadEach fixture load (world.withCache (.blank remembers)) :=
  .foldlM fixture.objects.zipIdx (fun world entry => loads world _ entry.1) world

/-- A fixture loads alike whether the world remembers readings or not. -/
theorem loadsAlike_ofFixture (fixture : WorldFixture) (clock : Int) :
    LoadsAlike fun remembers =>
      ofFixture { fixture with config := { fixture.config with attrCache := remembers } }
        clock := by
  have loose : LoadsAlike fun remembers =>
      unrelated { fixture with config := { fixture.config with attrCache := remembers } }
        clock := by
    simp only [unrelated]
    split
    · exact .error _
    · exact ⟨.ok { World.new fixture.config clock with
        objects := fixture.objects.map fun object => object.record clock }, fun _ => rfl⟩
  have rounds (remembers : Bool)
      (load : World → Dbref → ObjectFixture → Except FixtureError World) :
      loadEach { fixture with config := { fixture.config with attrCache := remembers } } load =
        loadEach fixture load := rfl
  simp only [ofFixture, rounds]
  refine loose.bind fun loose => ?_
  refine (loadsAlike_loadEach (fun world object entry => ?relations) fixture loose).bind
    fun related => ?_
  case relations => exact loadsAlike_loadRelations object entry world
  refine (loadsAlike_loadEach (fun world object entry => ?defs) fixture related).bind
    fun declared => ?_
  case defs =>
    exact .foldlM entry.defs (fun world entry => loadsAlike_loadDef object entry world) world
  refine loadsAlike_loadEach (fun world object entry => ?_) fixture declared
  exact .foldlM entry.attrs (fun world entry => loadsAlike_loadValue object entry world) world

end World
end WorldLocks
