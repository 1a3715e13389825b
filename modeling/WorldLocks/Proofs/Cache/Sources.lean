import WorldLocks.Proofs.Cache.Reading

/-! What readings depend on.  A world may be given another cache; what stored attributes are read
from stays the same.  Where that is the same, caches that have answered alike go on to do so. -/

set_option autoImplicit false

namespace WorldLocks

/-- What stored attributes are read from. -/
def ObjectRecord.sources (record : ObjectRecord) : List AttrValue × List Dbref :=
  (record.values, record.parents)

namespace World

variable {world : World}

/-! ## Worlds with other caches -/

/-- The world with another cache, and with the setting that goes with it. -/
def withCache (world : World) (cache : ReadCache) : World :=
  { world with cache := cache, config := { world.config with attrCache := cache.enabled } }

@[simp] theorem slot?_withCache (world : World) (cache : ReadCache) (object : Dbref) :
    (world.withCache cache).slot? object = world.slot? object := rfl

@[simp] theorem record?_withCache (world : World) (cache : ReadCache) (object : Dbref) :
    (world.withCache cache).record? object = world.record? object := rfl

@[simp] theorem definedOn?_withCache (world : World) (cache : ReadCache) (object : Dbref)
    (name : Text) : (world.withCache cache).definedOn? object name = world.definedOn? object name :=
  rfl

@[simp] theorem findDef?_withCache (world : World) (cache : ReadCache) (object : Dbref)
    (name : Text) : (world.withCache cache).findDef? object name = world.findDef? object name := rfl

theorem flush_withCache (world : World) (cache : ReadCache) :
    (world.withCache cache).flush = world.flush.withCache cache.flush := rfl

@[simp] theorem modify_withCache (world : World) (cache : ReadCache) (object : Dbref)
    (change : ObjectRecord → ObjectRecord) :
    (world.withCache cache).modify object change =
      (world.modify object change).withCache cache := by
  unfold modify
  split <;> rfl

@[simp] theorem release_withCache (world : World) (cache : ReadCache) (key : AttrKey) :
    (world.withCache cache).release key = (world.release key).withCache cache := by
  cases key <;> rfl

@[simp] theorem releaseAll_withCache (world : World) (cache : ReadCache) (values : List AttrValue) :
    (world.withCache cache).releaseAll values = (world.releaseAll values).withCache cache := by
  induction values generalizing world with
  | nil => rfl
  | cons entry values ih =>
      have later := ih (world.release entry.key)
      rw [← release_withCache] at later
      exact later

theorem foldl_modify_withCache (world : World) (cache : ReadCache) (objects : List Dbref)
    (change : ObjectRecord → ObjectRecord) :
    objects.foldl (fun world object => world.modify object change) (world.withCache cache) =
      (objects.foldl (fun world object => world.modify object change) world).withCache cache := by
  induction objects generalizing world with
  | nil => rfl
  | cons object objects ih => rw [List.foldl_cons, List.foldl_cons, modify_withCache, ih]

@[simp] theorem putInto_withCache (world : World) (cache : ReadCache) (object place : Dbref) :
    (world.withCache cache).putInto object place =
      (world.putInto object place).withCache cache := by
  unfold putInto
  rw [slot?_withCache]
  cases world.slot? object with
  | none => rfl
  | some record => simp only [modify_withCache]

@[simp] theorem takeOut_withCache (world : World) (cache : ReadCache) (object : Dbref) :
    (world.withCache cache).takeOut object = (world.takeOut object).withCache cache := by
  unfold takeOut
  rw [slot?_withCache]
  cases world.slot? object with
  | none => rfl
  | some record => simp only [modify_withCache]

@[simp] theorem letGo_withCache (world : World) (cache : ReadCache) (object : Dbref) :
    (world.withCache cache).letGo object = (world.letGo object).withCache cache := by
  unfold letGo
  rw [slot?_withCache]
  cases world.slot? object with
  | none => rfl
  | some record => simp only [modify_withCache, foldl_modify_withCache]

/-! ## What readings depend on -/

/-- Whether what stored attributes are read from is the same in two worlds.  Definitions may be
added. -/
structure SameSources (first second : World) : Prop where
  sources : second.objects.map (·.sources) = first.objects.map (·.sources)
  definitions : ∀ serial, ∀ definition ∈ first.registry.definition? serial,
    second.registry.definition? serial = some definition

theorem SameSources.refl (world : World) : world.SameSources world :=
  ⟨rfl, fun _ _ found => found⟩

theorem SameSources.trans {first second third : World} (one : first.SameSources second)
    (two : second.SameSources third) : first.SameSources third :=
  ⟨two.sources.trans one.sources, fun serial definition found =>
    two.definitions serial definition (one.definitions serial definition found)⟩

variable {after : World} {readings : Dbref → AttrDef → Prop} {one two : ReadCache}

theorem SameSources.slot? (same : world.SameSources after) (object : Dbref) :
    (after.slot? object).map (·.sources) = (world.slot? object).map (·.sources) :=
  SameIn.slot? same.sources object

theorem parentsOf_eq_sources (world : World) (object : Dbref) :
    world.parentsOf object = ((world.slot? object).map (·.sources)).elim [] (·.2) := by
  unfold parentsOf
  cases world.slot? object <;> rfl

theorem ownValue?_eq_sources (world : World) (key : AttrKey) (object : Dbref) :
    world.ownValue? key object = (((world.slot? object).map (·.sources)).bind fun sources =>
      (sources.1.find? (·.key = key)).map (·.value)).filter (· ≠ []) := by
  unfold ownValue?
  cases world.slot? object <;> rfl

theorem SameSources.storedValue (same : world.SameSources after) {object : Dbref}
    {record later : ObjectRecord} (found : world.slot? object = some record)
    (foundLater : after.slot? object = some later) (handle : AttrDef) :
    after.storedValue object later handle = world.storedValue object record handle := by
  have sources := same.slot? object
  rw [found, foundLater] at sources
  obtain ⟨values, -⟩ := Prod.mk.inj (Option.some.inj sources)
  have parents : after.parentsOf = world.parentsOf := by
    funext object
    rw [parentsOf_eq_sources, parentsOf_eq_sources, same.slot?]
  have own : after.ownValue? handle.key = world.ownValue? handle.key := by
    funext object
    rw [ownValue?_eq_sources, ownValue?_eq_sources, same.slot?]
  have depth : after.searchDepth = world.searchDepth := by
    have lengths := congrArg List.length same.sources
    rw [List.length_map, List.length_map] at lengths
    simp only [searchDepth, lengths]
  have inherited : after.inheritedValue? object handle.key =
      world.inheritedValue? object handle.key := by
    simp only [inheritedValue?, parents, own, depth]
  simp only [World.storedValue, ObjectRecord.value?, values, inherited]

theorem SameSources.agreeOn (same : world.SameSources after) {object : Dbref}
    {handle second : AttrDef} :
    after.AgreeOn object handle second ↔ world.AgreeOn object handle second := by
  have slots := same.slot? object
  constructor
  · intro agree key stored otherStored record found
    rw [Option.mem_def] at found
    obtain ⟨later, foundLater, -⟩ := Option.map_eq_some_iff.mp (by rw [slots, found]; rfl)
    rw [← same.storedValue found foundLater, ← same.storedValue found foundLater]
    exact agree key stored otherStored later foundLater
  · intro agree key stored otherStored later foundLater
    rw [Option.mem_def] at foundLater
    obtain ⟨record, found, -⟩ := Option.map_eq_some_iff.mp (by rw [← slots, foundLater]; rfl)
    rw [same.storedValue found foundLater, same.storedValue found foundLater]
    exact agree key stored otherStored record found

/-- A handle that is up to date was so before definitions were added. -/
theorem SameSources.isCurrent (same : world.SameSources after) {handle : AttrDef}
    (current : after.IsCurrent handle) : world.IsCurrent handle := by
  unfold IsCurrent at current ⊢
  split at current
  · exact current
  · intro definition found
    exact current definition (same.definitions _ definition found)

theorem SameSources.alikeAmong (same : world.SameSources after)
    (alike : world.AlikeAmong readings one two) : after.AlikeAmong readings one two := by
  intro object handle among
  by_cases looksUp : after.LooksUp object handle
  · obtain ⟨⟨later, foundLater⟩, stored⟩ := looksUp.imp_left Option.isSome_iff_exists.mp
    have slots := same.slot? object
    obtain ⟨record, found, -⟩ := Option.map_eq_some_iff.mp (by rw [← slots, foundLater]; rfl)
    have before := alike object handle among
    rw [readWith_of_looksUp found stored, readWith_of_looksUp found stored] at before
    rw [readWith_of_looksUp foundLater stored, readWith_of_looksUp foundLater stored,
      same.storedValue found foundLater, before]
  · rw [readWith_of_not_looksUp looksUp, readWith_of_not_looksUp looksUp two]

end World
end WorldLocks
