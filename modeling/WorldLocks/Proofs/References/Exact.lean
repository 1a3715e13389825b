import WorldLocks.Proofs.Loading
import WorldLocks.Proofs.Reachable
import WorldLocks.Proofs.References.Lifecycle

/-! Reference counts are exact after every run, refused operations included. -/

set_option autoImplicit false

namespace WorldLocks

/-- Whether an operation keeps the values of different objects apart.  Copying the values of an
object onto itself is the only one that does not; cloning, which copies onto a new object, does. -/
def Operation.CopiesApart : Operation → Prop
  | .copyNoninherited destination source => destination ≠ source
  | _ => True

namespace World

variable {world loaded : World} {loose : Nat → Nat}

/-! ## One operation -/

theorem Balanced.perform (balanced : world.Balanced loose) (operation : Operation)
    (apart : operation.CopiesApart) : (operation.perform world).world.Balanced loose := by
  cases operation with
  | create name kind owner location => exact balanced.create name kind owner location
  | clone source owner location => exact balanced.clone source owner location
  | destroy object => exact balanced.destroy object
  | moveTo object destination => exact balanced.moveTo object destination
  | addParent child parent => exact balanced.addParent child parent
  | removeParent child parent => exact balanced.removeParent child parent
  | setFlag object flag on => exact balanced.setFlag object flag on
  | setZone object zone => exact balanced.setZone object zone
  | setLink object link => exact balanced.setLink object link
  | setOwner object owner => exact balanced.setOwner object owner
  | touch object => exact balanced.touch object
  | declareAttr object name flags => exact balanced.declareAttr object name flags
  | undeclareAttr object name => exact balanced.undeclareAttr object name
  | setValue object handle value => exact balanced.setValue object handle value
  | clearValue object handle => exact balanced.clearKey object handle.key
  | freeValues object => exact balanced.freeValues object
  | copyNoninherited destination source => exact balanced.copyNoninherited apart
  | setLock limits player thing lock text => exact balanced.setLock limits player thing lock text

/-- Copying an object onto itself may leave references loose, and nothing else does. -/
theorem Covered.perform (covered : world.Covered) (operation : Operation) :
    (operation.perform world).world.Covered := by
  obtain ⟨loose, balanced⟩ := covered
  by_cases apart : operation.CopiesApart
  · exact ⟨loose, balanced.perform operation apart⟩
  · cases operation with
    | copyNoninherited destination source =>
        exact balanced.copyNoninherited_covered destination source
    | _ => exact absurd trivial apart

/-! ## Where runs start -/

/-- Objects without declarations and values refer to nothing. -/
theorem InBalance.of_blank (registry : world.registry = .empty)
    (blank : ∀ record ∈ world.objects, record.declared = [] ∧ record.values = []) :
    world.InBalance := by
  have none : ∀ serial, world.references serial = 0 := by
    intro serial
    refine List.sum_eq_zero fun count member => ?_
    obtain ⟨record, listed, rfl⟩ := List.mem_map.mp member
    obtain ⟨declared, values⟩ := blank record listed
    simp [ObjectRecord.references, declared, values]
  refine ⟨registry ▸ Registry.wellFormed_empty, fun serial => ?_, fun record member => ?_⟩
  · rw [registry, none]
    rfl
  · obtain ⟨-, values⟩ := blank record member
    exact ⟨by simp [values], by simp [values]⟩

theorem SameLedger.enlistChild {object : Dbref} {parents : List Dbref}
    (listing : world.enlistChild object parents = .ok loaded) : world.SameLedger loaded := by
  induction parents generalizing world with
  | nil =>
      obtain rfl := Except.ok.inj listing
      exact .refl world
  | cons parent later ih =>
      unfold World.enlistChild at listing
      split at listing
      · exact (SameLedger.modify world parent fun _ => by rfl).trans (ih listing)
      · cases listing

theorem SameLedger.loadRelations {object : Dbref} {fixture : ObjectFixture}
    (loads : loadRelations world object fixture = .ok loaded) : world.SameLedger loaded := by
  obtain ⟨enlisted, listing, rfl⟩ := loadRelations_ok loads
  have related : world.SameLedger (world.relate object fixture) :=
    .modify world object fun _ => by rfl
  unfold World.settle
  split
  · exact related.trans (.enlistChild listing)
  · exact (related.trans (.enlistChild listing)).trans (.putInto enlisted object fixture.location)

theorem blank_of_unrelated {fixture : WorldFixture} {clock : Int}
    (start : unrelated fixture clock = .ok world) : world.registry = .empty ∧
      ∀ record ∈ world.objects, record.declared = [] ∧ record.values = [] := by
  obtain ⟨-, rfl⟩ := unrelated_eq_ok.mp start
  refine ⟨rfl, fun record member => ?_⟩
  obtain ⟨object, -, rfl⟩ := List.mem_map.mp member
  exact ⟨rfl, rfl⟩

theorem IsStart.inBalance (start : IsStart world) : world.InBalance := by
  cases start with
  | empty config clock => exact .of_blank rfl (by simp [World.new])
  | loaded loads =>
      refine ofFixture_invariant InBalance loads ?unrelated ?relations ?declarations ?values
      case unrelated =>
        intro loose start
        obtain ⟨registry, blank⟩ := blank_of_unrelated start
        exact .of_blank registry blank
      case relations =>
        exact fun _ _ _ _ balanced loads => balanced.sameLedger (.loadRelations loads)
      case declarations =>
        exact fun _ object name flags balanced => Balanced.declareAttr balanced object name flags
      case values =>
        exact fun _ object handle value balanced => Balanced.setValue balanced object handle value

theorem Reachable.inBalance (reachable : Reachable Operation.CopiesApart world) :
    world.InBalance := by
  obtain ⟨start, starts, run⟩ := reachable
  exact run.invariant InBalance starts.inBalance
    (fun _ operation apart balanced => Balanced.perform balanced operation apart)
    (fun _ _ balanced => ⟨balanced.wellFormed, balanced.counts, balanced.tidy⟩)
    (fun _ _ balanced => ⟨balanced.wellFormed, balanced.counts, balanced.tidy⟩)

theorem Reachable.covered {allowed : Operation → Prop} (reachable : Reachable allowed world) :
    world.Covered := by
  obtain ⟨start, starts, run⟩ := reachable
  apply run.invariant Covered ⟨_, starts.inBalance⟩
  · intro world operation _ covered
    exact covered.perform operation
  · rintro world cache ⟨loose, balanced⟩
    exact ⟨loose, balanced.wellFormed, balanced.counts, balanced.tidy⟩
  · rintro world clock ⟨loose, balanced⟩
    exact ⟨loose, balanced.wellFormed, balanced.counts, balanced.tidy⟩

/-! ## Exact counts -/

/-- How many objects declare a serial number, destroyed ones included. -/
def declarations (world : World) (serial : Nat) : Nat :=
  world.objects.countP fun record => serial ∈ record.declared

/-- How many values are stored under a serial number, on destroyed objects too. -/
def storedValues (world : World) (serial : Nat) : Nat :=
  (world.objects.flatMap (·.values)).countP fun entry => entry.key = .declared serial

/-- The registry counts what the objects refer to, and holds all of it. -/
structure ExactReferences (world : World) : Prop where
  serials_nodup : (world.registry.entries.map (·.serial)).Nodup
  count_eq : ∀ entry ∈ world.registry.entries,
    entry.count = world.declarations entry.serial + world.storedValues entry.serial
  one_le_count : ∀ entry ∈ world.registry.entries, 1 ≤ entry.count
  declared_registered : ∀ record ∈ world.objects, ∀ serial ∈ record.declared,
    ∃ entry ∈ world.registry.entries, entry.serial = serial
  value_registered : ∀ record ∈ world.objects, ∀ value ∈ record.values, ∀ serial,
    value.key = .declared serial → ∃ entry ∈ world.registry.entries, entry.serial = serial
  keys_nodup : ∀ record ∈ world.objects, (record.values.map (·.key)).Nodup
  values_ne_nil : ∀ record ∈ world.objects, ∀ value ∈ record.values, value.value ≠ []

theorem references_eq (world : World) (serial : Nat) :
    world.references serial = world.declarations serial + world.storedValues serial := by
  unfold references declarations storedValues
  induction world.objects with
  | nil => rfl
  | cons record objects ih =>
      rw [List.map_cons, List.sum_cons, ih]
      simp only [List.countP_cons, List.flatMap_cons, List.countP_append, ObjectRecord.references,
        valueReferences, decide_eq_true_eq]
      omega

theorem InBalance.registered (balanced : world.InBalance) {serial : Nat}
    (refers : 0 < world.references serial) :
    ∃ entry ∈ world.registry.entries, entry.serial = serial := by
  have count := balanced.counts serial
  rw [Nat.add_zero, countOf_of_pos refers] at count
  obtain ⟨entry, found, -⟩ := Option.map_eq_some_iff.mp count
  exact ⟨entry, Registry.registered?_some found⟩

/-- After every run the counts of the registry are exact. -/
theorem Reachable.exactReferences (reachable : Reachable Operation.CopiesApart world) :
    world.ExactReferences := by
  have balanced := reachable.inBalance
  have counted : ∀ entry ∈ world.registry.entries,
      world.references entry.serial = entry.count ∧ 0 < entry.count := by
    intro entry member
    have count := balanced.counts entry.serial
    rw [Registry.count?, balanced.wellFormed.registered?_mem member] at count
    exact countOf_eq_some.mp count.symm
  refine ⟨balanced.wellFormed.serials_nodup, ?_, fun entry member => (counted entry member).2,
    ?_, ?_, fun record member => (balanced.tidy record member).keys_nodup,
    fun record member => (balanced.tidy record member).values_ne_nil⟩
  · intro entry member
    rw [← references_eq, (counted entry member).1]
  · intro record member serial declared
    refine balanced.registered (references_pos member ?_)
    simp [ObjectRecord.references, declared]
  · intro record member value stored serial key
    refine balanced.registered (references_pos member ?_)
    exact Nat.lt_of_lt_of_le (valueReferences_pos stored key) (Nat.le_add_left ..)

/-- A player declares an attribute, holds a value for it and is cloned, and the clone is destroyed:
the declaration and the value of the player are left. -/
theorem exactReferences_after_clone :
    ∃ world : World, Reachable Operation.CopiesApart world ∧ world.registry.count? 0 = some 2 ∧
      world.ExactReferences := by
  let foo : AttrDef := ⟨.declared 0, "FOO".toList, .empty, .system⟩
  let history : List Operation :=
    [.create "Hall".toList .room .nothing .nothing,
      .create "Alice".toList .player .nothing .system,
      .declareAttr .root "FOO".toList .empty,
      .setValue .root foo "hello world".toList,
      .clone .root .nothing .system,
      .destroy ⟨2⟩]
  have reachable : Reachable Operation.CopiesApart
      (Operation.performAll (.new {} 0) history) :=
    ⟨_, .empty {} 0, Leads.refl.performAll (by simp [history, Operation.CopiesApart])⟩
  exact ⟨_, reachable, by decide +kernel, reachable.exactReferences⟩

end World
end WorldLocks
