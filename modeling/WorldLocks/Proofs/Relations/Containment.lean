import Mathlib.Data.Fintype.Pigeonhole
import Mathlib.Order.Monotone.Basic
import WorldLocks.Proofs.Reachable
import WorldLocks.Proofs.Relations.Loading
import WorldLocks.Proofs.Relations.Steps

/-! Where objects are is told from both ends alike.  A place lists what is in it, each object once
and in the right list, and nothing else.  Since nothing is ever put inside itself, the way outwards
from an object ends nowhere, unless the world was loaded with a cycle. -/

set_option autoImplicit false

namespace WorldLocks

namespace World

variable {first second world : World}

/-! ## Both ends -/

/-- Whether every place lists what is in it and nothing else.  Taken together over all references,
so that the step of an operation is one change of the three functions involved. -/
def ListsInhabitants (world : World) : Prop :=
  ∀ place asExit object, place ≠ .nothing →
    (world.inside place asExit).count object =
      if world.location object = place ∧ world.isExit object = asExit then 1 else 0

namespace ListsInhabitants

theorem of_placing (lists : first.ListsInhabitants)
    (same : first.SameIn ObjectRecord.placing second) : second.ListsInhabitants := by
  intro place asExit object somewhere
  rw [inside_of_placing same, location_of_placing same, isExit_of_placing same]
  exact lists place asExit object somewhere

theorem mem_inside (lists : world.ListsInhabitants) {place object : Dbref} {asExit : Bool}
    (somewhere : place ≠ .nothing) : object ∈ world.inside place asExit ↔
      world.location object = place ∧ world.isExit object = asExit := by
  rw [← List.count_pos_iff, lists place asExit object somewhere]
  split <;> simp_all

theorem located (lists : world.ListsInhabitants) {place object : Dbref} {asExit : Bool}
    (listed : object ∈ world.inside place asExit) :
    world.location object = place ∧ world.isExit object = asExit := by
  refine (lists.mem_inside fun nowhere => ?_).mp listed
  simp [nowhere, inside] at listed

/-- Nothing is in a place that has no slot. -/
theorem location_ne (lists : world.ListsInhabitants) {place : Dbref}
    (somewhere : place ≠ .nothing) (missing : world.slot? place = none) (object : Dbref) :
    world.location object ≠ place := by
  intro located
  have listed := (lists.mem_inside somewhere).mpr ⟨located, rfl⟩
  simp [inside, missing] at listed

theorem location_ne_nextObject (lists : world.ListsInhabitants) (object : Dbref) :
    world.location object ≠ world.nextObject :=
  lists.location_ne (Dbref.ofIndex_ne_nothing _) world.slot?_nextObject object

theorem push_new (lists : world.ListsInhabitants) (name : Text) (kind : ObjectKind) (owner : Dbref)
    (now : Int) : (world.push (.new name kind owner now)).ListsInhabitants := by
  intro place asExit object somewhere
  rw [inside_push_new, location_push_new, lists place asExit object somewhere]
  by_cases next : object = world.nextObject
  · have nowhere : world.location object ≠ place := by
      rw [next, location_of_slot?_none world.slot?_nextObject]
      exact somewhere.symm
    simp [nowhere]
  · rw [isExit_push next]

theorem putInto (lists : world.ListsInhabitants) {object place : Dbref}
    (nowhere : world.location object = .nothing) (present : (world.slot? object).isSome)
    (there : (world.slot? place).isSome) : (world.putInto object place).ListsInhabitants := by
  intro other asExit target somewhere
  have before := lists other asExit target somewhere
  rw [inside_putInto present there, location_putInto present, isExit_putInto]
  by_cases own : target = object
  · have absent : (world.inside other asExit).count target = 0 := by
      rw [before, own, nowhere, if_neg fun located => somewhere located.1.symm]
    subst own
    by_cases here : other = place ∧ asExit = world.isExit target
    · obtain ⟨rfl, rfl⟩ := here
      simp [absent]
    · have elsewhere : ¬ (place = other ∧ world.isExit target = asExit) :=
        fun located => here ⟨located.1.symm, located.2.symm⟩
      rw [if_neg here, absent, if_pos rfl, if_neg elsewhere]
  · have apart : object ≠ target := fun same => own same.symm
    rw [if_neg own, ← before]
    split
    · simp [apart]
    · rfl

theorem takeOut (lists : world.ListsInhabitants) (object : Dbref) :
    (world.takeOut object).ListsInhabitants := by
  intro place asExit target somewhere
  have before := lists place asExit target somewhere
  have gone : Dbref.nothing ≠ place := somewhere.symm
  rw [inside_takeOut, location_takeOut, isExit_takeOut]
  by_cases own : target = object
  · subst own
    by_cases here : place = world.location target
    · rw [if_pos here, count_filter_ne, if_pos rfl, if_pos rfl, if_neg fun both => gone both.1]
    · have elsewhere : ¬ world.location target = place := fun same => here same.symm
      simp [here, before, elsewhere, gone]
  · rw [if_neg own, ← before]
    split
    · rw [count_filter_ne, if_neg own]
    · rfl

theorem letGo (lists : world.ListsInhabitants) (object : Dbref) :
    (world.letGo object).ListsInhabitants := by
  intro place asExit target somewhere
  rw [inside_letGo, location_letGo, isExit_letGo]
  by_cases here : place = object
  · subst here
    have gone : Dbref.nothing ≠ place := somewhere.symm
    rw [if_pos rfl, List.count_nil]
    split
    · simp [gone]
    · next unlisted =>
      have elsewhere : world.location target ≠ place := by
        intro located
        have listed := (lists.mem_inside somewhere).mpr ⟨located, rfl⟩
        refine unlisted (List.mem_append.mpr ?_)
        cases exit : world.isExit target with
        | false => exact .inl (exit ▸ listed)
        | true => exact .inr (exit ▸ listed)
      simp [elsewhere]
  · rw [if_neg here, lists place asExit target somewhere]
    by_cases listed : target ∈ world.inside object false ++ world.inside object true
    · have located : world.location target = object :=
        (List.mem_append.mp listed).elim (fun inside => (lists.located inside).1)
          fun exit => (lists.located exit).1
      have elsewhere : object ≠ place := fun same => here same.symm
      have gone : Dbref.nothing ≠ place := somewhere.symm
      rw [if_pos listed, located, if_neg fun both => elsewhere both.1,
        if_neg fun both => gone both.1]
    · rw [if_neg listed]

theorem rearranges (lists : first.ListsInhabitants) (step : first.Rearranges second) :
    second.ListsInhabitants := by
  cases step with
  | unrelated same => exact lists.of_placing same.placing
  | created name kind owner now => exact lists.push_new name kind owner now
  | putIn nowhere present there outside => exact lists.putInto nowhere present there
  | takenOut object => exact lists.takeOut object
  | adopted present there apart => exact lists.of_placing (placing_linkParent first _ _)
  | disowned child parent => exact lists.of_placing (placing_unlinkParent first child parent)
  | letGo object => exact lists.letGo object

theorem rearranged (lists : first.ListsInhabitants) (steps : first.Rearranged second) :
    second.ListsInhabitants := by
  induction steps with
  | refl => exact lists
  | tail _ step ih => exact ih.rearranges step

theorem perform_rearranged (lists : world.ListsInhabitants) (operation : Operation) :
    world.Rearranged (operation.perform world).world :=
  Rearranged.perform .refl lists.location_ne_nextObject operation

theorem perform (lists : world.ListsInhabitants) (operation : Operation) :
    (operation.perform world).world.ListsInhabitants :=
  lists.rearranged (lists.perform_rearranged operation)

end ListsInhabitants

/-! ## No cycles -/

theorem acyclic_liesIn_of_location (acyclic : Acyclic first.LiesIn)
    (fewer : ∀ object, second.location object = first.location object ∨
      second.location object = .nothing) : Acyclic second.LiesIn := by
  refine acyclic.mono fun object place lies => ?_
  obtain ⟨located, somewhere⟩ := liesIn_iff.mp lies
  rcases fewer object with same | nowhere
  · exact liesIn_iff.mpr ⟨same.symm.trans located, somewhere⟩
  · exact absurd (located.symm.trans nowhere) somewhere

theorem acyclic_liesIn_rearranges (acyclic : Acyclic first.LiesIn)
    (step : first.Rearranges second) : Acyclic second.LiesIn := by
  cases step with
  | unrelated same =>
      exact acyclic_liesIn_of_location acyclic fun object =>
        .inl (location_of_placing same.placing object)
  | created name kind owner now =>
      exact acyclic_liesIn_of_location acyclic fun object => .inl (location_push_new ..)
  | putIn nowhere present there outside =>
      refine acyclic.insert (fun inner outer lies => ?_) fun way => outside (mem_outward.mpr way)
      obtain ⟨located, somewhere⟩ := liesIn_iff.mp lies
      rw [location_putInto present] at located
      split at located
      · next own => exact .inr ⟨own, located.symm⟩
      · exact .inl (liesIn_iff.mpr ⟨located, somewhere⟩)
  | takenOut object =>
      refine acyclic_liesIn_of_location acyclic fun other => ?_
      rw [location_takeOut]
      exact (ite_eq_or_eq ..).symm
  | adopted present there apart =>
      exact acyclic_liesIn_of_location acyclic fun object =>
        .inl (location_of_placing (placing_linkParent first _ _) object)
  | disowned child parent =>
      exact acyclic_liesIn_of_location acyclic fun object =>
        .inl (location_of_placing (placing_unlinkParent first child parent) object)
  | letGo object =>
      refine acyclic_liesIn_of_location acyclic fun other => ?_
      rw [location_letGo]
      exact (ite_eq_or_eq ..).symm

theorem acyclic_liesIn_rearranged (acyclic : Acyclic first.LiesIn)
    (steps : first.Rearranged second) : Acyclic second.LiesIn := by
  induction steps with
  | refl => exact acyclic
  | tail _ step ih => exact acyclic_liesIn_rearranges ih step

/-- The way outwards from an object does not go on for ever: it would come back to a slot that it
has already been in. -/
theorem exists_iterate_location_eq_nothing (acyclic : Acyclic world.LiesIn) (object : Dbref) :
    ∃ steps, world.location^[steps] object = .nothing := by
  by_contra endless
  rw [not_exists] at endless
  have lies (steps : Nat) :
      world.LiesIn (world.location^[steps] object) (world.location^[steps + 1] object) :=
    liesIn_iff.mpr ⟨(Function.iterate_succ_apply' ..).symm, endless (steps + 1)⟩
  have within (steps : Nat) : world.location^[steps] object ∈ world.slots := by
    rw [mem_slots, Option.isSome_iff_ne_none]
    intro missing
    have next := (liesIn_iff.mp (lies steps)).1
    rw [location_of_slot?_none missing] at next
    exact endless (steps + 1) next.symm
  let visited (steps : Nat) : {slot // slot ∈ world.slots} :=
    ⟨world.location^[steps] object, within steps⟩
  obtain ⟨early, late, apart, same⟩ := Finite.exists_ne_map_eq_of_infinite visited
  have chain ⦃early late : Nat⦄ (before : early < late) :
      Relation.TransGen world.LiesIn (world.location^[early] object)
        (world.location^[late] object) :=
    Nat.rel_of_forall_rel_succ_of_lt (Relation.TransGen world.LiesIn)
      (fun steps => Relation.TransGen.single (lies steps)) before
  have place : world.location^[early] object = world.location^[late] object :=
    congrArg Subtype.val same
  rcases Nat.lt_or_gt_of_ne apart with before | behind
  · exact acyclic _ (place ▸ chain before)
  · exact acyclic _ (place ▸ chain behind)

/-! ## Starts -/

theorem IsLoose.acyclic_liesIn (loose : world.IsLoose) : Acyclic world.LiesIn := by
  intro object cycle
  obtain ⟨place, lies, -⟩ := Relation.TransGen.head'_iff.mp cycle
  obtain ⟨located, somewhere⟩ := liesIn_iff.mp lies
  exact somewhere (located.symm.trans (loose.location object))

theorem IsLoose.listsInhabitants (loose : world.IsLoose) : world.ListsInhabitants := by
  intro place asExit object somewhere
  rw [loose.inside, loose.location, List.count_nil, if_neg fun located => somewhere located.1.symm]

/-- What holds of places when the round of relations has come to an index. -/
structure PlacedUpTo (total index : Nat) (world : World) : Prop where
  lists : world.ListsInhabitants
  waiting : ∀ later, index ≤ later → world.location (.ofIndex later) = .nothing
  present : ∀ slot < total, (world.slot? (.ofIndex slot)).isSome

theorem PlacedUpTo.loadRelations {total index : Nat} (placed : PlacedUpTo total index first)
    (within : index < total) {fixture : ObjectFixture}
    (loads : loadRelations first (.ofIndex index) fixture = .ok second) :
    PlacedUpTo total (index + 1) second := by
  have target : first.mayReferTo fixture.location = true :=
    mayReferTo_of_loadRelations loads (by simp [ObjectFixture.references])
  obtain ⟨enlisted, listing, rfl⟩ := loadRelations_ok loads
  have same : first.SameIn ObjectRecord.placing enlisted :=
    (placing_relate ..).trans (placing_enlistChild listing)
  have lists := placed.lists.of_placing same
  have waiting (later : Nat) (waits : index ≤ later) :
      enlisted.location (.ofIndex later) = .nothing :=
    (location_of_placing same _).trans (placed.waiting later waits)
  have present (slot : Nat) (below : slot < total) : (enlisted.slot? (.ofIndex slot)).isSome :=
    (same.isSome_slot? _).trans (placed.present slot below)
  unfold settle
  split
  · exact ⟨lists, fun later waits => waiting later (Nat.le_of_succ_le waits), present⟩
  · next somewhere =>
    rw [not_or] at somewhere
    have there : (enlisted.slot? fixture.location).isSome := by
      rw [same.isSome_slot?]
      simpa [mayReferTo, somewhere.1, somewhere.2] using target
    refine ⟨lists.putInto (waiting index (Nat.le_refl _)) (present index within) there, ?_, ?_⟩
    · intro later waits
      have apart : Dbref.ofIndex later ≠ .ofIndex index := fun equal => by
        have := Dbref.ofIndex_injective equal
        omega
      rw [location_putInto (present index within), if_neg apart]
      exact waiting later (Nat.le_of_succ_le waits)
    · intro slot below
      rw [(kinship_putInto ..).isSome_slot?]
      exact present slot below

theorem IsStart.listsInhabitants (starts : IsStart world) : world.ListsInhabitants := by
  cases starts with
  | empty config clock => exact (isLoose_new config clock).listsInhabitants
  | @loaded fixture _ _ loads =>
      obtain ⟨loose, related, start, relating, same⟩ := ofFixture_related loads
      obtain ⟨unplaced, present⟩ := isLoose_of_unrelated start
      have placed := loadEach_invariant (PlacedUpTo fixture.objects.length)
        (fun world index object next within placed => placed.loadRelations within)
        ⟨unplaced.listsInhabitants, fun later _ => unplaced.location _, present⟩ relating
      exact placed.lists.of_placing (SameRelations.of_sameBare same).placing

/-! ## Runs -/

theorem Leads.listsInhabitants {allowed : Operation → Prop} (run : Leads allowed first second)
    (starts : IsStart first) : second.ListsInhabitants :=
  run.invariant ListsInhabitants starts.listsInhabitants
    (fun _ operation _ lists => lists.perform operation)
    (fun _ _ lists => lists.of_placing rfl) fun _ _ lists => lists.of_placing rfl

theorem Leads.rearranged {allowed : Operation → Prop} (run : Leads allowed first second)
    (starts : IsStart first) : first.Rearranged second := by
  induction run with
  | refl => exact .refl
  | perform operation _ run ih =>
      exact ih.trans ((run.listsInhabitants starts).perform_rearranged operation)
  | read object handle _ ih => exact Rearranged.unrelated ih (.of_objects_eq rfl)
  | wait clock _ ih => exact Rearranged.unrelated ih (.of_objects_eq rfl)

/-! ## Consistent places -/

/-- Whether locations, contents and exits tell the same of all objects in the table. -/
structure ConsistentPlaces (world : World) : Prop where
  /-- What is in a place is listed there: an exit among the exits, all else among the contents. -/
  located_iff : ∀ object record place slot, world.slot? object = some record →
    world.slot? place = some slot →
      (record.location = place ↔
        object ∈ if record.kind = .exit then slot.exits else slot.contents)
  /-- It is listed once, and not in the other list. -/
  listed_once : ∀ object record slot, world.slot? object = some record →
    world.slot? record.location = some slot →
      slot.exits.count object + slot.contents.count object = 1
  /-- It is listed nowhere else. -/
  unlisted_elsewhere : ∀ object record place slot, world.slot? object = some record →
    world.slot? place = some slot → record.location ≠ place →
      object ∉ slot.exits ∧ object ∉ slot.contents
  somewhere : ∀ object record, world.slot? object = some record →
    record.location = .nothing ∨ (world.slot? record.location).isSome

theorem consistentPlaces_of_listsInhabitants (lists : world.ListsInhabitants) :
    world.ConsistentPlaces := by
  have count {object place : Dbref} {record slot : ObjectRecord}
      (found : world.slot? object = some record) (placed : world.slot? place = some slot)
      (asExit : Bool) : (slot.inside asExit).count object =
        if record.location = place ∧ record.isExit = asExit then 1 else 0 := by
    have somewhere : place ≠ .nothing := fun nowhere => by simp [nowhere] at placed
    have counted := lists place asExit object somewhere
    simp only [inside, location, isExit, found, placed, Option.elim_some] at counted
    exact counted
  constructor
  · intro object record place slot found placed
    have here := count found placed record.isExit
    have list : (if record.kind = .exit then slot.exits else slot.contents) =
        slot.inside record.isExit := by
      unfold ObjectRecord.isExit ObjectRecord.inside
      by_cases exit : record.kind = .exit <;> simp [exit]
    rw [list, ← List.count_pos_iff, here]
    by_cases located : record.location = place <;> simp [located]
  · intro object record slot found placed
    have exits : slot.exits.count object = _ := count found placed true
    have contents : slot.contents.count object = _ := count found placed false
    rw [exits, contents]
    cases record.isExit <;> simp
  · intro object record place slot found placed elsewhere
    have exits := count found placed true
    have contents := count found placed false
    rw [if_neg fun located => elsewhere located.1] at exits contents
    exact ⟨List.count_eq_zero.mp exits, List.count_eq_zero.mp contents⟩
  · intro object record found
    by_cases nowhere : record.location = .nothing
    · exact .inl nowhere
    · refine .inr (Option.isSome_iff_ne_none.mpr fun missing => ?_)
      exact lists.location_ne nowhere missing object (by simp [location, found])

/-- After every run places are consistent, and if there is no cycle at its start, the way outwards
from every object ends nowhere. -/
theorem Leads.consistentPlaces {allowed : Operation → Prop} {start : World}
    (run : Leads allowed start world) (starts : IsStart start) :
    world.ConsistentPlaces ∧
      (Acyclic start.LiesIn → ∀ object, ∃ steps, world.location^[steps] object = .nothing) := by
  have consistent := consistentPlaces_of_listsInhabitants (run.listsInhabitants starts)
  refine ⟨consistent, fun acyclic object => ?_⟩
  have later := acyclic_liesIn_rearranged acyclic (run.rearranged starts)
  exact exists_iterate_location_eq_nothing later object

/-- A coin is in a chest in a hall with a door.  The chest is not put into the coin, and the hall
lists the chest and the door apart. -/
theorem consistentPlaces_of_refused_move :
    ∃ world : World, Leads (fun _ => True) (.new {} 0) world ∧
      [⟨2⟩, ⟨1⟩, .system].map world.location = [⟨1⟩, .system, .nothing] ∧
      world.inside .system false = [⟨1⟩] ∧ world.inside .system true = [⟨3⟩] ∧
      world.ConsistentPlaces ∧ ∀ object, ∃ steps, world.location^[steps] object = .nothing := by
  let history : List Operation :=
    [.create "Hall".toList .room .nothing .nothing,
      .create "Chest".toList .thing .nothing .system,
      .create "Coin".toList .thing .nothing ⟨1⟩,
      .moveTo ⟨1⟩ ⟨2⟩,
      .create "Door".toList .exit .nothing .system]
  have run : Leads (fun _ => True) (.new {} 0) (Operation.performAll (.new {} 0) history) :=
    Leads.refl.performAll fun _ _ => trivial
  obtain ⟨consistent, ends⟩ := run.consistentPlaces (.empty {} 0)
  exact ⟨_, run, by decide +kernel, by decide +kernel, by decide +kernel, consistent,
    ends (isLoose_new {} 0).acyclic_liesIn⟩

end World
end WorldLocks
