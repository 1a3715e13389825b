import WorldLocks.Proofs.Destroyed.Spared
import WorldLocks.Proofs.References.Exact

/-! Destroying.  Everything that can be refused on the way happens while an object takes back what
it declares, and none of it is: its definitions are registered and no two of its declarations are
the same, so that each name finds the declaration it was taken from.  So every object that exists
can be destroyed, but the first, and nothing is left in its slot. -/

set_option autoImplicit false

namespace WorldLocks

/-! ## Definitions -/

namespace Registry

variable {registry : Registry} {serial other : Nat}

theorem definition?_release_of_ne (apart : other ≠ serial) :
    (registry.release serial).definition? other = registry.definition? other := by
  rw [definition?, registered?_release_of_ne apart, definition?]

end Registry

namespace World

/-- Whether two worlds declare the same, and differ in the definition of one serial number only. -/
structure SameDeclarations (serial : Nat) (first second : World) : Prop where
  declared : first.SameIn ObjectRecord.declared second
  definitions : ∀ other, other ≠ serial →
    second.registry.definition? other = first.registry.definition? other

namespace SameDeclarations

variable {serial : Nat} {first world : World}

theorem refl (serial : Nat) (world : World) : SameDeclarations serial world world :=
  ⟨.refl _ _, fun _ _ => rfl⟩

theorem release (same : SameDeclarations serial first world) :
    SameDeclarations serial first (world.release (.declared serial)) where
  declared := same.declared.of_objects_eq rfl
  definitions other apart :=
    (Registry.definition?_release_of_ne apart).trans (same.definitions other apart)

theorem clearKey (same : SameDeclarations serial first world) (object : Dbref) :
    SameDeclarations serial first (world.clearKey object (.declared serial)).2 := by
  have flushed : SameDeclarations serial first world.flush :=
    ⟨same.declared.of_objects_eq rfl, same.definitions⟩
  have cleared : SameDeclarations serial first
      (world.flush.modify object (dropValues (.declared serial))) := by
    constructor
    · exact flushed.declared.modify object fun _ => by rfl
    · rw [registry_modify]
      exact flushed.definitions
  unfold World.clearKey
  dsimp only
  split
  · exact flushed
  · split
    · exact cleared.release
    · exact cleared

theorem declaredBy (same : SameDeclarations serial first world) (object : Dbref) :
    world.declaredBy object = first.declaredBy object :=
  same.declared.elim [] object

theorem clearKeys (same : SameDeclarations serial first world) (family : List Dbref) :
    SameDeclarations serial first
      (family.foldl (fun world member => (world.clearKey member (.declared serial)).2) world) := by
  induction family generalizing world with
  | nil => exact same
  | cons member family ih => exact ih (same.clearKey member)

end SameDeclarations

/-! ## Taking back everything that is declared -/

variable {world : World} {loose : Nat → Nat} {object : Dbref}

theorem localDefs_eq (world : World) (object : Dbref) :
    world.localDefs object = (world.declaredBy object).filterMap world.registry.definition? := rfl

theorem Balanced.exists_definition? (balanced : world.Balanced loose) {serial : Nat}
    (declared : serial ∈ world.declaredBy object) :
    ∃ definition, world.registry.definition? serial = some definition := by
  cases found : world.slot? object with
  | none => simp [declaredBy, found] at declared
  | some record =>
      have listed : serial ∈ record.declared := by simpa [declaredBy, found] using declared
      have refers : 0 < world.references serial :=
        references_pos (slot?_mem found) (by simp [ObjectRecord.references, listed])
      have count := balanced.counts serial
      rw [countOf_of_pos (Nat.add_pos_left refers _)] at count
      obtain ⟨entry, registered, -⟩ := Option.map_eq_some_iff.mp count
      exact ⟨entry.definition, by rw [Registry.definition?, registered, Option.map_some]⟩

/-- The serial number of a new definition is declared nowhere. -/
theorem Balanced.nextSerial_not_mem (balanced : world.Balanced loose) (object : Dbref) :
    world.registry.nextSerial ∉ world.declaredBy object := by
  intro declared
  obtain ⟨definition, registered⟩ := balanced.exists_definition? declared
  rw [Registry.definition?, balanced.wellFormed.registered?_nextSerial] at registered
  cases registered

/-- The first declaration of an object is found by its name, and only it is taken back. -/
theorem Balanced.exists_undeclareAttr (balanced : world.Balanced loose) {serial : Nat}
    {later : List Nat} (declared : world.declaredBy object = serial :: later)
    (once : serial ∉ later) {definition : AttrDef}
    (registered : world.registry.definition? serial = some definition) :
    ∃ next, world.undeclareAttr object definition.name = (.ok definition, next) ∧
      next.declaredBy object = later ∧
      next.localDefs object = later.filterMap world.registry.definition? := by
  have key := balanced.wellFormed.key_of_definition? registered
  have here : world.definedOn? object definition.name = some definition := by
    simp [definedOn?, localDefs_eq, declared, registered, Text.sameIgnoringCase]
  have undeclared : (world.modify object fun record =>
      { record with declared := record.declared.filter (· ≠ serial) }).declaredBy object =
        later := by
    cases found : world.slot? object with
    | none => simp [declaredBy, found] at declared
    | some record =>
        have listed : record.declared = serial :: later := by
          simpa [declaredBy, found] using declared
        have kept : later.filter (· ≠ serial) = later :=
          List.filter_eq_self.mpr fun other member => by
            have apart : other ≠ serial := fun same => once (same ▸ member)
            simpa using apart
        simpa [declaredBy, slot?_modify_self, found, listed] using kept
  have same := ((SameDeclarations.refl serial (world.modify object fun record =>
    { record with declared := record.declared.filter (· ≠ serial) })).clearKeys
      (world.familyOf object)).release
  have left := (same.declaredBy object).trans undeclared
  refine ⟨_, ?_, left, ?_⟩
  · simp only [World.undeclareAttr, here, key]
    rfl
  · rw [localDefs_eq, left]
    refine List.filterMap_congr fun other member => ?_
    rw [same.definitions other fun equal => once (equal ▸ member), registry_modify]

theorem Balanced.undeclareAll_localDefs (balanced : world.Balanced loose)
    (once : (world.declaredBy object).Nodup) :
    ∃ after, world.undeclareAll object ((world.localDefs object).map (·.name)) = (.ok (), after) ∧
      after.declaredBy object = [] := by
  generalize declared : world.declaredBy object = serials at once
  -- Each round takes back the first declaration and leaves the definitions of the later ones.
  induction serials generalizing world with
  | nil => exact ⟨world, by simp [localDefs_eq, declared, World.undeclareAll, done], declared⟩
  | cons serial later ih =>
      obtain ⟨apart, distinct⟩ := List.nodup_cons.mp once
      have member : serial ∈ world.declaredBy object := declared ▸ List.mem_cons_self
      obtain ⟨definition, registered⟩ := balanced.exists_definition? member
      obtain ⟨next, undeclared, left, names⟩ :=
        balanced.exists_undeclareAttr declared apart registered
      have nextBalanced := balanced.undeclareAttr object definition.name
      rw [undeclared] at nextBalanced
      obtain ⟨after, rest, nothing⟩ := ih nextBalanced left distinct
      refine ⟨after, ?_, nothing⟩
      rw [names] at rest
      simp only [localDefs_eq, declared, List.filterMap_cons, registered, List.map_cons,
        World.undeclareAll, undeclared, Outcome.andThen]
      exact rest

end World

/-! ## What is left -/

namespace ObjectRecord

/-- The record of a destroyed object that is nowhere, has no relatives and declares nothing. -/
structure Vacant (record : ObjectRecord) : Prop where
  going : record.hasFlag .going = true
  location : record.location = .nothing
  contents : record.contents = []
  exits : record.exits = []
  parents : record.parents = []
  children : record.children = []
  declared : record.declared = []

variable {storing : Prop} {before after : ObjectRecord}

theorem Fades.vacant (fades : before.Fades storing after) (vacant : before.Vacant) :
    after.Vacant where
  going := fades.going.trans vacant.going
  location := fades.location.elim (·.trans vacant.location) id
  contents := List.sublist_nil.mp (vacant.contents ▸ fades.contents)
  exits := List.sublist_nil.mp (vacant.exits ▸ fades.exits)
  parents := List.sublist_nil.mp (vacant.parents ▸ fades.parents)
  children := List.sublist_nil.mp (vacant.children ▸ fades.children)
  declared := List.sublist_nil.mp (vacant.declared ▸ fades.declared)

theorem Fades.values_eq_nil (fades : before.Fades storing after) (keeps : ¬ storing)
    (nothing : before.values = []) : after.values = [] :=
  List.sublist_nil.mp (nothing ▸ fades.values.resolve_left keeps)

theorem Fades.ite {condition : Prop} [Decidable condition] (fades : before.Fades storing after) :
    before.Fades storing (if condition then after else before) := by
  split
  · exact fades
  · exact .refl before

end ObjectRecord

namespace World

variable {world : World} {object : Dbref}

theorem exists_takeOut {record : ObjectRecord} (found : world.slot? object = some record) :
    ∃ later, (world.takeOut object).slot? object = some later ∧ later.location = .nothing ∧
      record.Fades False later := by
  rw [slot?_takeOut found, found, Option.map_some]
  dsimp only
  rw [if_pos rfl]
  exact ⟨_, rfl, rfl, (ObjectRecord.Fades.ite (.dismiss object)).trans .withLocation_nothing⟩

theorem exists_letGo {record : ObjectRecord} (found : world.slot? object = some record) :
    ∃ later, (world.letGo object).slot? object = some later ∧ record.emptied.Fades False later := by
  rw [slot?_letGo found, found, Option.map_some]
  dsimp only
  rw [if_pos rfl]
  refine ⟨_, rfl, .trans ?_ (.ite .withLocation_nothing)⟩
  exact .trans (.ite (.dropChild object)) (.ite (.dropParent object))

theorem slot?_bury (world : World) (object : Dbref) :
    (world.bury object).slot? object = (world.slot? object).map fun record =>
      { record with flags := record.flags.insert .going, modified := world.clock } :=
  slot?_modify_self ..

/-- Whether the counts cover all references and no object declares a serial number twice. -/
structure Accounted (world : World) : Prop where
  covered : world.Covered
  once : ∀ object, (world.declaredBy object).Nodup

/-- Every object that exists can be destroyed, but the first, and its slot holds nothing then. -/
theorem Accounted.exists_destroy (accounted : world.Accounted)
    (valid : world.isValid object = true) (inhabited : object ≠ .system) :
    ∃ after record, world.destroy object = (.ok (), after) ∧ after.slot? object = some record ∧
      record.Vacant ∧ record.values = [] := by
  obtain ⟨⟨loose, balanced⟩, once⟩ := accounted
  obtain ⟨undeclared, taken, nothing⟩ := balanced.undeclareAll_localDefs (once object)
  have same : world.SameBare undeclared := by
    have bare := SameBare.undeclareAll (.refl _ world) object
      ((world.localDefs object).map (·.name))
    rwa [taken] at bare
  obtain ⟨record, present⟩ := Option.isSome_iff_exists.mp
    ((same.isSome_slot? object).trans (isSome_slot?_of_isValid valid))
  have undeclares : record.declared = [] := by simpa [declaredBy, present] using nothing
  obtain ⟨freed, frees, emptied, -⟩ := exists_freeValues present
  obtain ⟨out, outside, nowhere, outFades⟩ := exists_takeOut emptied
  obtain ⟨alone, letGo, aloneFades⟩ := exists_letGo outside
  have location : alone.location = .nothing := aloneFades.location.elim (·.trans nowhere) id
  have declared : alone.declared = [] :=
    List.sublist_nil.mp (undeclares ▸ aloneFades.declared.trans outFades.declared)
  have values : alone.values = [] :=
    aloneFades.values_eq_nil id (outFades.values_eq_nil id rfl)
  have buried := slot?_bury ((freed.takeOut object).letGo object) object
  rw [letGo, Option.map_some] at buried
  refine ⟨_, _, ?destroys, buried, ?vacant, values⟩
  case destroys =>
    simp only [World.destroy, if_neg inhabited, ifExists, valid, if_true, taken, Outcome.andThen,
      frees]
    rfl
  case vacant =>
    constructor
    · simp [ObjectRecord.hasFlag, FlagSet.contains_insert]
    · exact location
    · exact List.sublist_nil.mp aloneFades.contents
    · exact List.sublist_nil.mp aloneFades.exits
    · exact List.sublist_nil.mp aloneFades.parents
    · exact List.sublist_nil.mp aloneFades.children
    · exact declared

/-! ## Worlds in which everything can be destroyed -/

namespace Accounted

theorem sameLedger {other : World} (accounted : world.Accounted) (same : world.SameLedger other) :
    other.Accounted := by
  obtain ⟨⟨loose, balanced⟩, once⟩ := accounted
  have declared : world.SameIn ObjectRecord.declared other :=
    SameIn.coarsen same.ledgers fun _ _ equal => congrArg Prod.fst equal
  constructor
  · exact ⟨loose, balanced.sameLedger same⟩
  · intro object
    have kept : other.declaredBy object = world.declaredBy object := declared.elim [] object
    rw [kept]
    exact once object

theorem of_blank (registry : world.registry = .empty)
    (blank : ∀ record ∈ world.objects, record.declared = [] ∧ record.values = []) :
    world.Accounted := by
  constructor
  · exact ⟨_, InBalance.of_blank registry blank⟩
  · intro object
    have nothing : world.declaredBy object = [] :=
      elim_slot?_of_forall (fun record member => (blank record member).1) object
    rw [nothing]
    exact List.nodup_nil

/-- An object that is not marked comes out of every operation spared, or else with nothing left. -/
theorem vacant_or_spares (accounted : world.Accounted) (object : Dbref) (operation : Operation)
    (storing : Prop) (marks : ∀ on, operation.Marks object on → (on = true ↔ world.IsGone object))
    (stores : operation.StoresOn object → world.IsGone object → storing) :
    (∃ record, (operation.perform world).world.slot? object = some record ∧ record.Vacant ∧
        record.values = []) ∨
      Spares object storing world (operation.perform world).world := by
  by_cases destroys : operation = .destroy object ∧ object ≠ .system ∧ world.isValid object = true
  · obtain ⟨rfl, inhabited, valid⟩ := destroys
    obtain ⟨after, record, destroyed, left, vacant, values⟩ :=
      accounted.exists_destroy valid inhabited
    refine .inl ⟨record, ?_, vacant, values⟩
    rw [← left]
    simp only [Operation.perform, Operation.silent, destroyed]
  · refine .inr (spares_perform operation (fun own => ?_) marks stores)
    by_cases first : object = .system
    · exact .inl first
    · exact .inr (Bool.eq_false_iff.mpr fun valid => destroys ⟨own, first, valid⟩)

theorem nodup_declaredBy {other : World} {storing : Prop} (accounted : world.Accounted)
    (spares : Spares object storing world other) : (other.declaredBy object).Nodup := by
  obtain ⟨⟨loose, balanced⟩, once⟩ := accounted
  have before := once object
  cases there : other.slot? object with
  | none => simp [declaredBy, there]
  | some later =>
      rw [declaredBy, there, Option.elim_some]
      by_cases gone : world.IsGone object
      · obtain ⟨record, found, going⟩ := gone
        obtain ⟨same, present, fades⟩ := spares.fades record found going
        obtain rfl : same = later := Option.some.inj (present.symm.trans there)
        rw [declaredBy, found, Option.elim_some] at before
        exact before.sublist fades.declared
      -- The serial number of a new declaration is one that nothing refers to yet.
      · refine List.Nodup.sublist (spares.lives gone later there).2 ?_
        refine List.nodup_append.mpr ⟨before, by simp, ?_⟩
        rintro serial declared fresh member rfl
        obtain rfl := List.mem_singleton.mp member
        exact balanced.nextSerial_not_mem object declared

theorem perform (accounted : world.Accounted) (operation : Operation) :
    (operation.perform world).world.Accounted := by
  by_cases marking : ∃ target flag on, operation = .setFlag target flag on
  · obtain ⟨target, flag, on, rfl⟩ := marking
    have flushed : world.flush.Accounted := accounted.sameLedger ⟨rfl, rfl⟩
    refine modifySlot_world Accounted flushed ?_
    exact flushed.sameLedger (.modify world.flush target fun _ => by rfl)
  · refine ⟨accounted.covered.perform operation, fun object => ?_⟩
    have unmarked (on : Bool) (marked : operation.Marks object on) :
        on = true ↔ world.IsGone object :=
      absurd ⟨object, .going, on, marked.eq_setFlag⟩ marking
    cases accounted.vacant_or_spares object operation True unmarked fun _ _ => trivial with
    | inl left =>
        obtain ⟨record, found, vacant, -⟩ := left
        rw [declaredBy, found, Option.elim_some, vacant.declared]
        exact List.nodup_nil
    | inr spares => exact accounted.nodup_declaredBy spares

end Accounted

theorem IsStart.accounted (starts : IsStart world) : world.Accounted := by
  cases starts with
  | empty config clock => exact .of_blank rfl (by simp [World.new])
  | loaded loads =>
      refine ofFixture_invariant Accounted loads ?unrelated ?relations ?declarations ?values
      case unrelated =>
        intro loose start
        obtain ⟨registry, blank⟩ := blank_of_unrelated start
        exact .of_blank registry blank
      case relations =>
        exact fun _ _ _ _ accounted loads => accounted.sameLedger (.loadRelations loads)
      case declarations =>
        exact fun _ object name flags accounted =>
          accounted.perform (.declareAttr object name flags)
      case values =>
        exact fun _ object handle value accounted =>
          accounted.perform (.setValue object handle value)

theorem Reachable.accounted {allowed : Operation → Prop} (reachable : Reachable allowed world) :
    world.Accounted := by
  obtain ⟨start, starts, run⟩ := reachable
  apply run.invariant Accounted starts.accounted
  · exact fun _ operation _ accounted => accounted.perform operation
  · exact fun _ _ accounted => accounted.sameLedger ⟨rfl, rfl⟩
  · exact fun _ _ accounted => accounted.sameLedger ⟨rfl, rfl⟩

end World
end WorldLocks
