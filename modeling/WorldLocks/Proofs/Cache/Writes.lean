import WorldLocks.Proofs.Cache.Disturbance
import WorldLocks.Proofs.Declarations.Clearing
import WorldLocks.Proofs.Evaluation.Hidden
import WorldLocks.Proofs.LocksInEffect

/-! Where a write is seen.  As long as readings are made through handles that are up to date, what a
world remembers of them does not show, so that readings before and after a write can be compared by
what is stored.  A write shows in readings of its own attribute only, on its object and where the
attribute is inherited from there.  Clearing what was written for the first time takes it all
back. -/

set_option autoImplicit false

namespace WorldLocks

/-! ## Counts -/

theorem Registry.recount_recount {registry : Registry} {key : AttrKey} {first later : Nat → Nat}
    (stays : ∀ entry ∈ registry.entries, 0 < first entry.count) :
    (registry.recount key first).recount key later = registry.recount key (later ∘ first) := by
  unfold recount
  dsimp only
  rw [List.filterMap_filterMap]
  congr 1
  refine List.filterMap_congr fun entry member => ?_
  by_cases here : key = .declared entry.serial
  · simp [here, countOf_of_pos (stays entry member)]
  · simp [here]

/-! ## Runs with readings that are up to date -/

namespace World

/-- A run in which anything may happen, but every reading is made through a handle that is then up
to date. -/
inductive LeadsCurrent (start : World) : World → Prop where
  | refl : LeadsCurrent start start
  | happen {world : World} (event : Event) (current : event.ReadsNow world)
      (run : LeadsCurrent start world) : LeadsCurrent start (event.happen world).2

/-- Whether what a world remembers does not show in readings through handles that are up to date. -/
structure ReadsThrough (world : World) : Prop where
  covered : world.Covered
  withCache_self : world.withCache world.cache = world
  transparent : Evaluator.Transparent world world.cache

variable {start world : World}

/-- A cache that is switched off stays empty. -/
theorem readWith_blank_false (world : World) (object : Dbref) (handle : AttrDef) :
    (world.readWith (.blank false) object handle).2 = .blank false := by
  unfold readWith
  dsimp only
  split
  · rfl
  · split
    · rfl
    · split <;> rfl

theorem bisimulation_transparent :
    Bisimulation Event.ReadsNow fun world cache blank =>
      blank = .blank false ∧ Evaluator.Transparent world cache where
  reads := by
    rintro world one _ object handle covered ⟨rfl, alike⟩ current
    obtain ⟨value, behind⟩ := alike.readBoth covered object current
    rw [readWith_blank_false] at behind
    exact ⟨value, readWith_blank_false .., behind⟩
  evaluates := by
    rintro world host actor locked text zone covered - one _ ⟨rfl, alike⟩ object definition provides
    obtain ⟨value, behind⟩ :=
      alike.readBoth covered object (covered.isCurrent_of_provides provides)
    rw [readWith_blank_false] at behind
    exact ⟨value, readWith_blank_false .., behind⟩
  spares := by
    rintro world after one _ same ⟨rfl, alike⟩
    exact ⟨rfl, fun object handle current =>
      same.alikeAmong alike object handle (same.isCurrent current)⟩
  forgets := by
    rintro _ after one _ ⟨rfl, -⟩
    exact ⟨rfl, alikeAmong_flush after _ one (.blank false)⟩
  waits := fun _ _ _ _ alike => alike

theorem ReadsThrough.of_withCache (covered : world.Covered) {cache : ReadCache}
    (transparent : Evaluator.Transparent world cache) : (world.withCache cache).ReadsThrough where
  covered := covered.withCache cache
  withCache_self := rfl
  transparent := transparent

theorem ReadsThrough.happen (through : world.ReadsThrough) {event : Event}
    (current : event.ReadsNow world) : (event.happen world).2.ReadsThrough := by
  obtain ⟨answer, after, behind, _, happens, -, covered, -, transparent⟩ :=
    bisimulation_transparent.happen through.covered ⟨rfl, through.transparent⟩ current
  rw [through.withCache_self] at happens
  rw [happens]
  exact .of_withCache covered transparent

theorem IsStart.entries_cache (starts : world.IsStart) : world.cache.entries = [] := by
  cases starts with
  | empty config clock => rfl
  | @loaded fixture clock world loads =>
      obtain ⟨outcome, alike⟩ := loadsAlike_ofFixture fixture clock
      have loaded : outcome.map (·.withCache (.blank fixture.config.attrCache)) = .ok world :=
        (alike fixture.config.attrCache).symm.trans loads
      obtain ⟨bare, -, rfl⟩ := map_eq_ok.mp loaded
      rfl

theorem IsStart.readsThrough (starts : world.IsStart) : world.ReadsThrough where
  covered := ⟨_, starts.inBalance⟩
  withCache_self := starts.withCache_self
  transparent := alikeAmong_of_entries_nil world _ starts.entries_cache rfl

theorem LeadsCurrent.performAll (run : LeadsCurrent start world) (history : List Operation) :
    LeadsCurrent start (Operation.performAll world history) := by
  induction history generalizing world with
  | nil => exact run
  | cons operation history ih => exact ih (run.happen (.perform operation) trivial)

theorem LeadsCurrent.readsThrough (run : LeadsCurrent start world) (starts : start.IsStart) :
    world.ReadsThrough := by
  induction run with
  | refl => exact starts.readsThrough
  | happen event current _ ih => exact ih.happen current

theorem ReadsThrough.read (through : world.ReadsThrough) (object : Dbref) {handle : AttrDef}
    (current : world.IsCurrent handle) :
    (world.read object handle).1 = (world.readWith (.blank false) object handle).1 :=
  through.transparent object handle current

theorem read_of_entries_nil (forgotten : world.cache.entries = []) (object : Dbref)
    (handle : AttrDef) :
    (world.read object handle).1 = (world.readWith (.blank false) object handle).1 :=
  alikeAmong_of_entries_nil world (fun _ _ => True) forgotten rfl object handle trivial

/-! ## What a write leaves alone -/

variable {before after : World} {object other : Dbref} {key : AttrKey} {text : Text} {stamp : Int}

theorem objects_getElem? (world : World) (index : Nat) :
    world.objects[index]? = world.slot? (.ofIndex index) := by
  rw [World.slot?, Dbref.index?_ofIndex, Option.bind_some]

theorem SameIn.of_slot? {α : Type} {view : ObjectRecord → α}
    (slots : ∀ object, (after.slot? object).map view = (before.slot? object).map view) :
    before.SameIn view after := by
  refine List.ext_getElem? fun index => ?_
  rw [List.getElem?_map, List.getElem?_map, objects_getElem?, objects_getElem?]
  exact slots _

/-- A write that keeps the time stamp changes values only. -/
theorem Stores.sameButValues (stores : before.Stores after object key text stamp)
    (unstamped : ∀ record ∈ before.slot? object, record.modified = stamp) :
    before.SameButValues after := by
  refine SameIn.of_slot? fun other => ?_
  by_cases here : other = object
  · obtain ⟨old, new, found, there, changed, -⟩ := stores.record
    obtain rfl := unstamped old found
    rw [here, found, there, changed]
    rfl
  · rw [stores.others other here]

/-- What is stored under another key or on another object stays. -/
theorem Stores.value?_eq (stores : before.Stores after object key text stamp) {otherKey : AttrKey}
    (elsewhere : other = object → otherKey ≠ key) {record : ObjectRecord}
    (found : before.slot? other = some record) :
    (record.withValues (after.valuesOf other)).value? otherKey = record.value? otherKey := by
  by_cases here : other = object
  · obtain rfl := here
    obtain ⟨old, new, slot, there, -, sets⟩ := stores.record
    obtain rfl : old = record := Option.some.inj (slot.symm.trans found)
    have values : after.valuesOf other = new.values := by rw [valuesOf, there, Option.elim_some]
    have dropped : dropValues key (old.withValues new.values) = dropValues key old :=
      congrArg old.withValues sets.others
    rw [values, ← value?_dropValues (elsewhere rfl), dropped, value?_dropValues (elsewhere rfl)]
  · have values : after.valuesOf other = record.values := by
      rw [valuesOf, stores.others other here, found, Option.elim_some]
    rw [values]
    rfl

/-! ## Taking a write back -/

/-- Dropping a value that was stored where there was none brings back the table, with every value
in its place. -/
theorem Stores.objects_dropValues (stores : before.Stores after object key text stamp)
    (unstamped : ∀ record ∈ before.slot? object, record.modified = stamp)
    (missing : before.stored? object key = none) :
    (after.flush.modify object (dropValues key)).objects = before.objects := by
  obtain ⟨old, new, found, there, changed, sets⟩ := stores.record
  have unheld : old.value? key = none := by rwa [stored?, found, Option.bind_some] at missing
  have restored : dropValues key new = old := by
    have values : new.values.filter (·.key ≠ key) = old.values :=
      sets.others.trans (filter_key_eq_self (ObjectRecord.value?_eq_none.mp unheld))
    obtain rfl := unstamped old found
    rw [dropValues, values, changed]
  refine List.ext_getElem? fun index => ?_
  rw [objects_getElem?, objects_getElem?, slot?_modify, slot?_flush]
  by_cases here : Dbref.ofIndex index = object
  · rw [here, there, found, Option.map_some, if_pos rfl, restored]
  · rw [stores.others _ here]
    simp [here]

/-- The reference that a first value made is the one that is taken back. -/
theorem Stores.recount_registry {loose : Nat → Nat} (balanced : before.Balanced loose)
    (stores : before.Stores after object key text stamp) (filled : text ≠ [])
    (missing : before.stored? object key = none) :
    after.registry.recount key (· - 1) = before.registry := by
  obtain ⟨old, new, found, there, -, sets⟩ := stores.record
  have unheld : old.value? key = none := by rwa [stored?, found, Option.bind_some] at missing
  have one : after.held object key = 1 := by rw [held_of_setsEntry there sets, if_neg filled]
  have zero : before.held object key = 0 := by
    rw [held_eq found, unheld]
    rfl
  rw [stores.rest, one, zero, Registry.recount_recount fun _ _ => by omega]
  exact Registry.recount_self balanced.count_pos fun count => by simp

/-- Clearing a value that was stored where there was none brings back what was there before. -/
theorem Stores.clearKey_eq {loose later : Nat → Nat} (balanced : before.Balanced loose)
    (balancedAfter : after.Balanced later) (stores : before.Stores after object key text stamp)
    (unstamped : ∀ record ∈ before.slot? object, record.modified = stamp) (filled : text ≠ [])
    (missing : before.stored? object key = none) :
    after.clearKey object key = (.ok (), before.flush) := by
  obtain ⟨old, new, -, there, -, sets⟩ := stores.record
  have holds : new.value? key = some text := by
    rw [ObjectRecord.value?_of_setsEntry sets, if_neg filled]
  have present : new.values.any (·.key = key) = true := by
    obtain ⟨entry, found, -⟩ := Option.map_eq_some_iff.mp holds
    have here := List.find?_some found
    exact List.any_eq_true.mpr ⟨entry, List.mem_of_find?_eq_some found, here⟩
  have objects := stores.objects_dropValues unstamped missing
  have registry := stores.recount_registry balanced filled missing
  unfold clearKey
  dsimp only
  rw [slot?_flush, there]
  dsimp only
  rw [if_pos present, release_eq (by rw [registry_modify]; exact balancedAfter.wellFormed),
    registry_modify, modify_eq, objects, show after.flush.registry = after.registry from rfl,
    registry, stores.rest]
  rfl

/-! ## What a write shows in -/

/-- Where a write that is not refused is seen in readings through handles that are up to date: on
its object, and where an attribute that is inherited is read on those who inherit from there.  No
reading of another attribute tells of it.  If it was the first value, clearing it brings back every
value, in its place, every count and so every reading. -/
structure ShowsWrite (before after : World) (object : Dbref) (handle : AttrDef) (text : Text) :
    Prop where
  here : text ≠ [] → (after.read object handle).1 = text
  apart : ∀ other second, before.IsCurrent second → second.key ≠ handle.key →
    (after.read other second).1 = (before.read other second).1
  heirs : ∀ other, other ≠ object → (after.read other handle).1 ≠ (before.read other handle).1 →
    handle.hasFlag .inherit = true ∧ object ∈ before.ancestors other
  undone : text ≠ [] → before.stored? object handle.key = none →
    after.clearValue object handle = (.ok (), before.flush) ∧
      ∀ other second, before.IsCurrent second →
        (before.flush.read other second).1 = (before.read other second).1

/-- After every run whose readings are made through handles that are up to date, a write through
such a handle that is not refused is seen where it should be and nowhere else. -/
theorem LeadsCurrent.showsWrite (run : LeadsCurrent start before) (starts : start.IsStart)
    (object : Dbref) (handle : AttrDef) (text : Text) (current : before.IsCurrent handle)
    (writes : before.setValue object handle text = (.ok (), after)) :
    before.ShowsWrite after object handle text := by
  have through := run.readsThrough starts
  obtain ⟨loose, balanced⟩ := through.covered
  have stored : handle.isComputed = false := isComputed_of_setValue (by rw [writes])
  obtain ⟨error, refused, -⟩ | ⟨record, -, found, stores⟩ :=
    balanced.setValue_cases object handle text
  · rw [writes] at refused
    cases refused
  · rw [writes] at stores
    change before.Stores after object handle.key text record.modified at stores
    have unstamped : ∀ other ∈ before.slot? object, other.modified = record.modified := by
      intro other slot
      rw [Option.mem_def, found] at slot
      rw [Option.some.inj slot]
    have same := stores.sameButValues unstamped
    have forgotten : after.cache.entries = [] := by
      rw [stores.rest]
      rfl
    -- Readings that neither look at the value on its object nor inherit it are the same.
    have spares (other : Dbref) (second : AttrDef) (now : before.IsCurrent second)
        (elsewhere : second.key = handle.key →
          other ≠ object ∧ ¬ (second.hasFlag .inherit = true ∧ object ∈ before.ancestors other)) :
        (after.read other second).1 = (before.read other second).1 := by
      rw [read_of_entries_nil forgotten, through.read other now]
      refine same.readWith_blank_eq (fun place slot reads there => ?_) false
      refine stores.value?_eq (fun here keyed => ?_) there
      obtain ⟨another, stranger⟩ := elsewhere keyed
      rcases reads with self | heir
      · exact another (self ▸ here)
      · exact stranger (here ▸ heir)
    constructor
    case here =>
      intro filled
      have reads := stores.readWith stored
      rw [if_neg filled] at reads
      exact reads
    case apart =>
      exact fun other second now apart => spares other second now fun keyed => absurd keyed apart
    case heirs =>
      intro other another changes
      by_contra stranger
      exact changes (spares other handle current fun _ => ⟨another, stranger⟩)
    case undone =>
      intro filled missing
      have balancedAfter : after.Balanced loose := by
        have written := balanced.setValue object handle text
        rwa [writes] at written
      refine ⟨stores.clearKey_eq balanced balancedAfter unstamped filled missing, ?_⟩
      intro other second now
      rw [read_of_entries_nil rfl, through.read other now]
      rfl

/-- A child has read the value of its parent when it is given one of its own, which is then taken
away again. -/
theorem showsWrite_shadow :
    let foo : AttrDef := ⟨.declared 0, "FOO".toList, .ofList [.inherit], .system⟩
    ∃ before after : World, LeadsCurrent (.new {} 0) before ∧ before.cache.entries ≠ [] ∧
      before.setValue .root foo "shadow".toList = (.ok (), after) ∧
      (before.read .root foo).1 = "parent".toList ∧
      (after.read .root foo).1 = "shadow".toList ∧
      (after.read .system foo).1 = (before.read .system foo).1 ∧
      after.clearValue .root foo = (.ok (), before.flush) ∧
      (before.flush.read .root foo).1 = "parent".toList := by
  intro foo
  let history : List Operation :=
    [.create "parent".toList .player .nothing .nothing,
      .create "child".toList .player .nothing .nothing,
      .addParent .root .system,
      .declareAttr .system foo.name foo.flags,
      .setValue .system foo "parent".toList]
  let before := ((Event.read .root foo).happen (Operation.performAll (.new {} 0) history)).2
  have run : LeadsCurrent (.new {} 0) before :=
    (LeadsCurrent.refl.performAll history).happen (.read .root foo) (by decide +kernel)
  have current : before.IsCurrent foo := by decide +kernel
  have reads : (before.read .root foo).1 = "parent".toList := by decide +kernel
  let after := (before.setValue .root foo "shadow".toList).2
  have writes : before.setValue .root foo "shadow".toList = (.ok (), after) :=
    Prod.ext (by decide +kernel) rfl
  have shows := run.showsWrite (.empty {} 0) .root foo "shadow".toList current writes
  obtain ⟨cleared, returns⟩ := shows.undone (by decide) (by decide +kernel)
  refine ⟨before, after, run, by decide +kernel, writes, reads, shows.here (by decide), ?_,
    cleared, (returns .root foo current).trans reads⟩
  by_contra changes
  have heir := shows.heirs .system (by decide) changes
  exact absurd heir.2 (by decide +kernel)

end World
end WorldLocks
