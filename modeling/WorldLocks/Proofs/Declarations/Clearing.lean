import WorldLocks.Proofs.Ancestry
import WorldLocks.Proofs.Declarations.Names

/-! Taking back a declaration.  The walk that clears values goes down the children, so what it
clears is told by the parents only because these agree with the children.  Every value that it
clears releases one reference, and the declaration releases the last one of its own: what keeps the
definition alive is the values of objects that do not descend from the one that declared it. -/

set_option autoImplicit false

namespace WorldLocks

namespace World

variable {before after world : World} {object other : Dbref} {serial : Nat} {key : AttrKey}

/-- The value that is stored on an object under a key. -/
def stored? (world : World) (object : Dbref) (key : AttrKey) : Option Text :=
  (world.slot? object).bind (·.value? key)

/-- How many objects hold a value under a key, destroyed ones included. -/
def holders (world : World) (key : AttrKey) : Nat :=
  world.objects.countP fun record => (record.value? key).isSome

/-- What taking back a declaration changes: the object no longer declares the serial number, and
those who descend from it hold no value for it. -/
structure TakesBack (before after : World) (object : Dbref) (serial : Nat) : Prop where
  slots : ∀ other, after.slot? other = (before.slot? other).map fun record =>
    { record with
      declared := if other = object then record.declared.filter (· ≠ serial) else record.declared
      values :=
        if before.isA other object then record.values.filter (·.key ≠ .declared serial)
        else record.values }
  stored_iff : ∀ other value, after.stored? other (.declared serial) = some value ↔
    before.stored? other (.declared serial) = some value ∧ before.isA other object = false
  undeclared : serial ∉ after.declaredBy object
  /-- The definitions of all others, and their counts. -/
  entries : ∀ other, other ≠ serial →
    after.registry.registered? other = before.registry.registered? other
  registered_iff : (after.registry.count? serial).isSome = true ↔
    ∃ other value, after.stored? other (.declared serial) = some value
  count_eq : ∀ count, after.registry.count? serial = some count →
    count = after.holders (.declared serial)

/-! ## Holders -/

theorem holders_pos :
    0 < world.holders key ↔ ∃ other value, world.stored? other key = some value := by
  rw [holders, List.countP_pos_iff]
  constructor
  · rintro ⟨record, member, holds⟩
    obtain ⟨index, here⟩ := List.mem_iff_getElem?.mp member
    obtain ⟨value, stored⟩ := Option.isSome_iff_exists.mp holds
    exact ⟨.ofIndex index, value, by rw [stored?, slot?_ofIndex, here, Option.bind_some, stored]⟩
  · rintro ⟨other, value, stored⟩
    obtain ⟨record, found, holds⟩ := Option.bind_eq_some_iff.mp stored
    exact ⟨record, slot?_mem found, by rw [holds, Option.isSome_some]⟩

/-- Where nobody declares a serial number, it is referred to by those who hold a value for it. -/
theorem references_eq_holders (tidy : ∀ record ∈ world.objects, record.Tidy)
    (undeclared : ∀ record ∈ world.objects, serial ∉ record.declared) :
    world.references serial = world.holders (.declared serial) := by
  unfold references holders
  generalize world.objects = records at tidy undeclared ⊢
  induction records with
  | nil => rfl
  | cons record later ih =>
      obtain ⟨here, others⟩ := List.forall_mem_cons.mp tidy
      obtain ⟨absent, elsewhere⟩ := List.forall_mem_cons.mp undeclared
      rw [List.map_cons, List.sum_cons, ih others elsewhere, List.countP_cons,
        ObjectRecord.references, if_neg absent, here.valueReferences_eq, Nat.zero_add, Nat.add_comm]

/-! ## Clearing -/

theorem slot?_clearKey (world : World) (key : AttrKey) (member other : Dbref) :
    (world.clearKey member key).2.slot? other =
      (world.slot? other).map fun record =>
        if other = member then dropValues key record else record := by
  have cleared := slot?_modify world.flush member (dropValues key) other
  rw [← slot?_flush world other, ← cleared]
  unfold World.clearKey
  dsimp only
  cases found : world.flush.slot? member with
  | none =>
      rw [modify_of_slot?_none found]
      rfl
  | some record =>
      dsimp only
      split
      · rw [done, slot?, objects_release, ← slot?]
      · rfl

theorem dropValues_dropValues (key : AttrKey) (record : ObjectRecord) :
    dropValues key (dropValues key record) = dropValues key record := by
  simp [dropValues, List.filter_filter]

theorem registered?_clearKey_of_ne {another : Nat} (apart : another ≠ serial) (world : World)
    (member : Dbref) :
    (world.clearKey member (.declared serial)).2.registry.registered? another =
      world.registry.registered? another := by
  unfold World.clearKey
  dsimp only
  split
  · rfl
  · split
    · rw [done, release, Registry.registered?_release_of_ne apart, registry_modify]
      rfl
    · rw [done, registry_modify]
      rfl

theorem registered?_clearKeys_of_ne {another : Nat} (apart : another ≠ serial) (world : World)
    (family : List Dbref) :
    (family.foldl (fun world member => (world.clearKey member (.declared serial)).2)
        world).registry.registered? another =
      world.registry.registered? another := by
  induction family generalizing world with
  | nil => rfl
  | cons member family ih =>
      rw [List.foldl_cons, ih, registered?_clearKey_of_ne apart]

/-! ## Taking back -/

/-- The world after a declaration has been taken back. -/
def takeBack (world : World) (object : Dbref) (serial : Nat) : World :=
  ((world.familyOf object).foldl (fun world member => (world.clearKey member (.declared serial)).2)
    (world.modify object fun record =>
      { record with declared := record.declared.filter (· ≠ serial) })).release (.declared serial)

theorem undeclareAttr_ok (wellFormed : world.registry.WellFormed) {name : Text}
    {definition : AttrDef} (run : (world.undeclareAttr object name).1 = .ok definition) :
    ∃ serial, definition.key = .declared serial ∧ serial ∈ world.declaredBy object ∧
      (world.undeclareAttr object name).2 = world.takeBack object serial := by
  unfold World.undeclareAttr at run ⊢
  cases declared : world.definedOn? object name with
  | none =>
      rw [declared] at run
      cases run
  | some found =>
      obtain ⟨record, serial, here, listed, registered⟩ := exists_of_definedOn? declared
      have key := wellFormed.key_of_definition? registered
      simp only [declared, key, done, Except.ok.injEq] at run ⊢
      subst run
      refine ⟨serial, key, ?_, rfl⟩
      rw [declaredBy, here]
      exact listed

theorem slot?_takeBack (lists : world.ListsChildren) (object other : Dbref) (serial : Nat) :
    (world.takeBack object serial).slot? other = (world.slot? other).map fun record =>
      { record with
        declared := if other = object then record.declared.filter (· ≠ serial) else record.declared
        values :=
          if world.isA other object then record.values.filter (·.key ≠ .declared serial)
          else record.values } := by
  unfold takeBack
  rw [slot?, objects_release, ← slot?,
    slot?_foldl (fun world member other => world.slot?_clearKey _ member other)
      (dropValues_dropValues _), slot?_modify, Option.map_map]
  cases found : world.slot? other with
  | none => rfl
  | some record =>
      have something : other ≠ .nothing := by
        rintro rfl
        cases found
      have family : other ∈ world.familyOf object ↔ world.isA other object = true := by
        rw [lists.mem_familyOf, isA_iff, or_iff_right something]
      rw [Option.map_some, Option.map_some, Function.comp_apply]
      simp only [family]
      split <;> split <;> rfl

theorem stored?_takeBack (lists : world.ListsChildren) {value : Text} :
    (world.takeBack object serial).stored? other (.declared serial) = some value ↔
      world.stored? other (.declared serial) = some value ∧ world.isA other object = false := by
  rw [stored?, stored?, slot?_takeBack lists]
  cases world.slot? other with
  | none => simp
  | some record =>
      cases descends : world.isA other object with
      | true =>
          refine iff_of_false (fun stored => ?_) (by simp)
          rw [Option.map_some, Option.bind_some] at stored
          obtain ⟨entry, member, same⟩ := ObjectRecord.exists_of_value?_some stored
          simp [same] at member
      | false => simp [ObjectRecord.value?]

/-- Nobody declares what has been taken back from the only one who did. -/
theorem not_mem_declared_takeBack (lists : world.ListsChildren)
    (alone : ∀ other, serial ∈ world.declaredBy other → other = object) :
    ∀ record ∈ (world.takeBack object serial).objects, serial ∉ record.declared := by
  intro record member declares
  obtain ⟨index, here⟩ := List.mem_iff_getElem?.mp member
  have changed := world.slot?_takeBack lists object (.ofIndex index) serial
  rw [slot?_ofIndex, here] at changed
  obtain ⟨old, found, rfl⟩ := Option.map_eq_some_iff.mp changed.symm
  dsimp only at declares
  split at declares
  · simp at declares
  · next apart =>
    refine apart (alone _ ?_)
    rw [declaredBy, found]
    exact declares

/-- Taking back a declaration clears the values of those who descend from the object, and no
others; these keep the definition alive, each by one reference. -/
theorem Reachable.takesBack (reachable : Reachable Operation.CopiesApart before) {name : Text}
    {definition : AttrDef} (run : (before.undeclareAttr object name).1 = .ok definition) :
    ∃ serial, definition.key = .declared serial ∧
      before.TakesBack (before.undeclareAttr object name).2 object serial := by
  have balanced := reachable.inBalance
  have sound := reachable.declaresSoundly object
  have afterBalanced := balanced.undeclareAttr object name
  obtain ⟨start, starts, leads⟩ := reachable
  have lists := starts.listsChildren.rearranged (leads.rearranged starts)
  obtain ⟨serial, key, declared, taken⟩ := undeclareAttr_ok balanced.wellFormed run
  rw [taken] at afterBalanced ⊢
  have undeclared := not_mem_declared_takeBack lists (sound.alone serial declared)
  have count : (before.takeBack object serial).registry.count? serial =
      countOf ((before.takeBack object serial).holders (.declared serial)) := by
    rw [afterBalanced.counts, Nat.add_zero, references_eq_holders afterBalanced.tidy undeclared]
  refine ⟨serial, key, fun other => before.slot?_takeBack lists object other serial,
    fun other value => stored?_takeBack lists, ?_, ?_, ?_, ?_⟩
  · rw [declaredBy]
    cases found : (before.takeBack object serial).slot? object with
    | none => exact List.not_mem_nil
    | some record => exact undeclared record (slot?_mem found)
  · intro other apart
    rw [takeBack, release, Registry.registered?_release_of_ne apart,
      registered?_clearKeys_of_ne apart, registry_modify]
  · rw [count, ← holders_pos, Option.isSome_iff_exists]
    simp [countOf_eq_some]
  · intro total counted
    rw [count, countOf_eq_some] at counted
    exact counted.1.symm

/-- Two objects that are each other's parents, and one that has nothing to do with them but holds a
value for what the first declares. -/
def knottedFixture : WorldFixture :=
  let thing (parents : List Dbref) (defs attrs : List (Text × Text)) : ObjectFixture :=
    ⟨"Thing".toList, .thing, none, .nothing, .nothing, .nothing, [], parents, defs, attrs⟩
  ⟨{}, [
    thing [⟨1⟩, ⟨1⟩] [("FOO".toList, [])] [],
    thing [⟨0⟩] [] [("FOO".toList, "lost".toList)],
    thing [] [] [("#0.FOO".toList, "kept".toList)]]⟩

/-- The second object is marked as destroyed, and loses its value all the same. -/
theorem takesBack_knotted :
    ∃ world : World, Reachable Operation.CopiesApart world ∧ world.isValid .root = false ∧
      let after := (world.undeclareAttr .system "foo".toList).2
      world.TakesBack after .system 0 ∧
        [.root, ⟨2⟩].map (world.stored? · (.declared 0)) =
          [some "lost".toList, some "kept".toList] ∧
        [.root, ⟨2⟩].map (after.stored? · (.declared 0)) = [none, some "kept".toList] ∧
        after.registry.count? 0 = some 1 := by
  have shown : (ofFixture knottedFixture 0).toOption.map (fun loaded =>
      let world := ((Operation.setFlag .root .going true).perform loaded).world
      let after := (world.undeclareAttr .system "foo".toList).2
      decide ((world.undeclareAttr .system "foo".toList).1 =
          .ok ⟨.declared 0, "FOO".toList, .empty, .system⟩ ∧
        world.isValid .root = false ∧
        [.root, ⟨2⟩].map (world.stored? · (.declared 0)) =
          [some "lost".toList, some "kept".toList] ∧
        [.root, ⟨2⟩].map (after.stored? · (.declared 0)) = [none, some "kept".toList] ∧
        after.registry.count? 0 = some 1)) = some true := by
    decide +kernel
  obtain ⟨loaded, loads, seen⟩ := exists_ofFixture shown
  obtain ⟨run, gone, held, left, count⟩ := of_decide_eq_true seen
  have reachable : Reachable Operation.CopiesApart
      ((Operation.setFlag .root .going true).perform loaded).world :=
    ⟨loaded, .loaded loads, Leads.refl.perform _ trivial⟩
  obtain ⟨serial, key, takes⟩ := reachable.takesBack run
  obtain rfl := AttrKey.declared.inj key
  exact ⟨_, reachable, gone, takes, held, left, count⟩

end World
end WorldLocks
