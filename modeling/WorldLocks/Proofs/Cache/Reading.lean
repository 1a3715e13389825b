import WorldLocks.Proofs.Inheritance
import WorldLocks.Proofs.References.Values

/-! What a reading does to later ones.  A reading is remembered under its object and key, but what
it answers also depends on the flags of the handle.  So it shows only in readings of the same
attribute of the same object, and not in those whose handle would have been read alike.  Handles
that are up to date are always read alike. -/

set_option autoImplicit false

namespace WorldLocks

/-! ## The cache -/

namespace ReadCache

/-- A cache that has nothing to answer, whether it will remember readings or not. -/
def blank (remembers : Bool) : ReadCache := ⟨remembers, []⟩

@[simp] theorem enabled_fill (cache : ReadCache) (object : Dbref) (key : AttrKey) (value : Text) :
    (cache.fill object key value).enabled = cache.enabled := by
  unfold fill
  split <;> rfl

theorem lookup?_of_entries_nil {cache : ReadCache} (forgotten : cache.entries = [])
    (object : Dbref) (key : AttrKey) : cache.lookup? object key = none := by
  simp [lookup?, forgotten]

/-- What is remembered is found again, and nothing else is lost or found. -/
theorem lookup?_fill (cache : ReadCache) (object other : Dbref) (key otherKey : AttrKey)
    (value : Text) :
    (cache.fill object key value).lookup? other otherKey =
      if cache.enabled ∧ other = object ∧ otherKey = key then some value
      else cache.lookup? other otherKey := by
  cases enabled : cache.enabled with
  | false => simp [fill, enabled]
  | true =>
      by_cases here : other = object ∧ otherKey = key
      · obtain ⟨rfl, rfl⟩ := here
        simp [fill, lookup?, enabled]
      · have apart : (object, key) ≠ (other, otherKey) := by
          intro same
          cases same
          exact here ⟨rfl, rfl⟩
        simp [fill, lookup?, enabled, apart, here]

end ReadCache

namespace World

variable {world : World} {cache : ReadCache} {object other : Dbref} {handle second : AttrDef}

/-! ## One reading -/

/-- Whether a reading through a handle looks at what is stored. -/
def LooksUp (world : World) (object : Dbref) (handle : AttrDef) : Prop :=
  (world.slot? object).isSome = true ∧ handle.isComputed = false

theorem readWith_of_not_looksUp (elsewhere : ¬ world.LooksUp object handle) (cache : ReadCache) :
    world.readWith cache object handle =
      ((world.readWith (.blank false) object handle).1, cache) := by
  unfold readWith
  cases found : world.slot? object with
  | none => rfl
  | some record =>
      cases computed : handle.isComputed with
      | true => rfl
      | false => exact absurd ⟨by simp [found], computed⟩ elsewhere

/-- What is remembered comes before what is stored. -/
theorem readWith_of_looksUp {record : ObjectRecord} (found : world.slot? object = some record)
    (stored : handle.isComputed = false) (cache : ReadCache) :
    (world.readWith cache object handle).1 =
      (cache.lookup? object handle.key).getD (world.storedValue object record handle) := by
  unfold readWith
  rw [found]
  simp only [stored]
  cases cache.lookup? object handle.key <;> rfl

theorem lookup?_readWith {record : ObjectRecord} (found : world.slot? object = some record)
    (stored : handle.isComputed = false) (cache : ReadCache) (other : Dbref) (key : AttrKey) :
    (world.readWith cache object handle).2.lookup? other key =
      if cache.enabled ∧ other = object ∧ key = handle.key then
        some (world.readWith cache object handle).1
      else cache.lookup? other key := by
  unfold readWith
  rw [found]
  simp only [stored]
  cases remembered : cache.lookup? object handle.key with
  | none => exact ReadCache.lookup?_fill ..
  | some value =>
      simp only [Bool.false_eq_true, if_false]
      split
      · next here => rw [here.2.1, here.2.2, remembered]
      · rfl

@[simp] theorem enabled_readWith (world : World) (cache : ReadCache) (object : Dbref)
    (handle : AttrDef) : (world.readWith cache object handle).2.enabled = cache.enabled := by
  unfold readWith
  dsimp only
  split
  · rfl
  · split
    · rfl
    · split
      · rfl
      · exact ReadCache.enabled_fill ..

/-! ## Two readings -/

/-- Whether a reading is answered from the place that an earlier one has filled. -/
def Meets (world : World) (object : Dbref) (handle : AttrDef) (other : Dbref) (second : AttrDef) :
    Prop :=
  other = object ∧ second.key = handle.key ∧ world.LooksUp object handle ∧
    second.isComputed = false

instance : Decidable (world.LooksUp object handle) := inferInstanceAs (Decidable (_ ∧ _))

instance : Decidable (world.Meets object handle other second) :=
  inferInstanceAs (Decidable (_ ∧ _))

/-- A reading repeats an earlier one that it meets, and is not changed by any other. -/
theorem readWith_readWith (world : World) (cache : ReadCache) (object other : Dbref)
    (handle second : AttrDef) :
    (world.readWith (world.readWith cache object handle).2 other second).1 =
      if cache.enabled ∧ world.Meets object handle other second then
        (world.readWith cache object handle).1
      else (world.readWith cache other second).1 := by
  by_cases looksUp : world.LooksUp object handle
  · obtain ⟨⟨record, found⟩, stored⟩ := looksUp.imp_left Option.isSome_iff_exists.mp
    by_cases looks : world.LooksUp other second
    · obtain ⟨⟨otherRecord, otherFound⟩, otherStored⟩ := looks.imp_left Option.isSome_iff_exists.mp
      rw [readWith_of_looksUp otherFound otherStored, lookup?_readWith found stored,
        readWith_of_looksUp otherFound otherStored cache]
      by_cases here : cache.enabled = true ∧ other = object ∧ second.key = handle.key
      · have meets : cache.enabled = true ∧ world.Meets object handle other second :=
          ⟨here.1, here.2.1, here.2.2, looksUp, otherStored⟩
        rw [if_pos here, if_pos meets, Option.getD_some]
      · have passes : ¬ (cache.enabled = true ∧ world.Meets object handle other second) :=
          fun meets => here ⟨meets.1, meets.2.1, meets.2.2.1⟩
        rw [if_neg here, if_neg passes]
    · have passes : ¬ (cache.enabled = true ∧ world.Meets object handle other second) := by
        rintro ⟨-, rfl, -, ⟨slot, -⟩, otherStored⟩
        exact looks ⟨slot, otherStored⟩
      rw [if_neg passes, readWith_of_not_looksUp looks, readWith_of_not_looksUp looks cache]
  · have passes : ¬ (cache.enabled = true ∧ world.Meets object handle other second) :=
      fun meets => looksUp meets.2.2.2.1
    rw [if_neg passes, readWith_of_not_looksUp looksUp]

/-- Whether two handles, if they are of one attribute, find the same value stored for an object. -/
def AgreeOn (world : World) (object : Dbref) (first second : AttrDef) : Prop :=
  first.key = second.key → first.isComputed = false → second.isComputed = false →
    ∀ record ∈ world.slot? object,
      world.storedValue object record first = world.storedValue object record second

/-- Of the flags only the one for inheritance matters. -/
theorem storedValue_congr (key : handle.key = second.key)
    (inherits : handle.hasFlag .inherit = second.hasFlag .inherit) (object : Dbref)
    (record : ObjectRecord) :
    world.storedValue object record handle = world.storedValue object record second := by
  unfold storedValue
  rw [key, inherits]

theorem readWith_eq_of_agreeOn (agree : world.AgreeOn object handle second)
    (meets : world.Meets object handle object second) (cache : ReadCache) :
    (world.readWith cache object handle).1 = (world.readWith cache object second).1 := by
  obtain ⟨-, key, ⟨slot, stored⟩, otherStored⟩ := meets
  obtain ⟨record, found⟩ := Option.isSome_iff_exists.mp slot
  rw [readWith_of_looksUp found stored, readWith_of_looksUp found otherStored, key,
    agree key.symm stored otherStored record found]

/-- A reading does not change those that would have been read alike. -/
theorem readWith_readWith_of_agreeOn
    (agree : other = object → world.AgreeOn object handle second) (cache : ReadCache) :
    (world.readWith (world.readWith cache object handle).2 other second).1 =
      (world.readWith cache other second).1 := by
  rw [readWith_readWith]
  split
  · next meets =>
    obtain rfl := meets.2.1
    exact readWith_eq_of_agreeOn (agree rfl) meets.2 cache
  · rfl

/-! ## Caches that answer alike -/

/-- Whether two caches give the same answers to the readings among some. -/
def AlikeAmong (world : World) (readings : Dbref → AttrDef → Prop) (first second : ReadCache) :
    Prop :=
  ∀ object handle, readings object handle →
    (world.readWith first object handle).1 = (world.readWith second object handle).1

variable {readings : Dbref → AttrDef → Prop} {one two : ReadCache}

theorem alikeAmong_of_entries_nil (world : World) (readings : Dbref → AttrDef → Prop)
    (first : one.entries = []) (second : two.entries = []) :
    world.AlikeAmong readings one two := by
  intro object handle _
  by_cases looksUp : world.LooksUp object handle
  · obtain ⟨⟨record, found⟩, stored⟩ := looksUp.imp_left Option.isSome_iff_exists.mp
    rw [readWith_of_looksUp found stored, readWith_of_looksUp found stored,
      ReadCache.lookup?_of_entries_nil first, ReadCache.lookup?_of_entries_nil second]
  · rw [readWith_of_not_looksUp looksUp, readWith_of_not_looksUp looksUp two]

theorem AlikeAmong.refl (cache : ReadCache) : world.AlikeAmong readings cache cache :=
  fun _ _ _ => rfl

theorem AlikeAmong.symm (alike : world.AlikeAmong readings one two) :
    world.AlikeAmong readings two one := by
  intro object handle among
  exact (alike object handle among).symm

theorem AlikeAmong.trans {three : ReadCache} (first : world.AlikeAmong readings one two)
    (later : world.AlikeAmong readings two three) : world.AlikeAmong readings one three := by
  intro object handle among
  exact (first object handle among).trans (later object handle among)

/-- The same reading through both caches keeps them alike. -/
theorem AlikeAmong.readBoth (alike : world.AlikeAmong readings one two)
    (enabled : one.enabled = two.enabled) (among : readings object handle) :
    world.AlikeAmong readings (world.readWith one object handle).2
      (world.readWith two object handle).2 := by
  intro other second otherAmong
  rw [readWith_readWith, readWith_readWith, enabled, alike object handle among,
    alike other second otherAmong]

/-- A reading through one cache alone keeps it alike if all readings agree with each other. -/
theorem AlikeAmong.read (agree : ∀ object first second, readings object first →
    readings object second → world.AgreeOn object first second) (among : readings object handle)
    (cache : ReadCache) :
    world.AlikeAmong readings (world.readWith cache object handle).2 cache := by
  intro other second otherAmong
  apply readWith_readWith_of_agreeOn
  rintro rfl
  exact agree other handle second among otherAmong

/-! ## Handles that are up to date -/

/-- Whether a handle is up to date: it is built in, or it has the flags that its definition has.  A
handle of a definition that is not registered always is. -/
def IsCurrent (world : World) (handle : AttrDef) : Prop :=
  match handle.key with
  | .builtin which => handle = .ofBuiltin which
  | .declared serial =>
    ∀ definition ∈ world.registry.definition? serial, handle.flags = definition.flags

instance : Decidable (world.IsCurrent handle) := by
  unfold IsCurrent
  split <;> infer_instance

/-- Whether a definition is one that a name can mean: a built-in one or a registered one. -/
def Provides (world : World) (definition : AttrDef) : Prop :=
  (∃ which, definition = .ofBuiltin which) ∨
    ∃ serial, world.registry.definition? serial = some definition

theorem Provides.isCurrent (wellFormed : world.registry.WellFormed)
    (provides : world.Provides handle) : world.IsCurrent handle := by
  obtain ⟨which, rfl⟩ | ⟨serial, registered⟩ := provides
  · exact (rfl : AttrDef.ofBuiltin which = .ofBuiltin which)
  · unfold IsCurrent
    rw [wellFormed.key_of_definition? registered]
    intro definition found
    rw [Option.mem_def, registered] at found
    cases found
    rfl

/-- What is referred to is registered. -/
theorem Covered.exists_definition? (covered : world.Covered) {serial : Nat}
    (refers : 0 < world.references serial) :
    ∃ definition, world.registry.definition? serial = some definition := by
  obtain ⟨loose, balanced⟩ := covered
  have counted := balanced.counts serial
  rw [countOf_of_pos (Nat.add_pos_left refers _)] at counted
  obtain ⟨registered, present, -⟩ := Option.map_eq_some_iff.mp counted
  exact ⟨registered.definition, Option.map_eq_some_iff.mpr ⟨registered, present, rfl⟩⟩

/-- Nothing is stored under a serial number that is not registered. -/
theorem Covered.value?_eq_none (covered : world.Covered) {serial : Nat}
    (unregistered : world.registry.definition? serial = none) {record : ObjectRecord}
    (found : world.slot? object = some record) : record.value? (.declared serial) = none := by
  rw [ObjectRecord.value?_eq_none]
  intro entry member key
  have refers : 0 < world.references serial := by
    apply references_pos (slot?_mem found)
    exact Nat.lt_of_lt_of_le (valueReferences_pos member key) (Nat.le_add_left ..)
  obtain ⟨definition, registered⟩ := covered.exists_definition? refers
  simp [registered] at unregistered

theorem Covered.storedValue_eq_nil (covered : world.Covered) {serial : Nat}
    (unregistered : world.registry.definition? serial = none) {record : ObjectRecord}
    (found : world.slot? object = some record) (keyed : handle.key = .declared serial) :
    world.storedValue object record handle = [] := by
  unfold storedValue
  rw [keyed, covered.value?_eq_none unregistered found]
  cases inherited : world.inheritedValue? object (.declared serial) with
  | none => simp
  | some value =>
      obtain ⟨other, -, own⟩ := exists_of_inheritedValue? inherited
      unfold ownValue? at own
      cases there : world.slot? other with
      | none => simp [there] at own
      | some record => simp [there, covered.value?_eq_none unregistered there] at own

/-- Handles that are up to date agree. -/
theorem IsCurrent.agreeOn (covered : world.Covered) (first : world.IsCurrent handle)
    (later : world.IsCurrent second) (object : Dbref) : world.AgreeOn object handle second := by
  intro key stored otherStored record found
  cases keyed : handle.key with
  | builtin which =>
      have otherKeyed : second.key = .builtin which := key ▸ keyed
      simp only [IsCurrent, keyed] at first
      simp only [IsCurrent, otherKeyed] at later
      rw [first, later]
  | declared serial =>
      have otherKeyed : second.key = .declared serial := key ▸ keyed
      simp only [IsCurrent, keyed] at first
      simp only [IsCurrent, otherKeyed] at later
      cases registered : world.registry.definition? serial with
      | none =>
          rw [covered.storedValue_eq_nil registered found keyed,
            covered.storedValue_eq_nil registered found otherKeyed]
      | some definition =>
          have flags : handle.flags = second.flags :=
            (first definition registered).trans (later definition registered).symm
          exact storedValue_congr key (by simp only [AttrDef.hasFlag, flags]) object record

end World
end WorldLocks
