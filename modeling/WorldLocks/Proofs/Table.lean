import WorldLocks.World.Lifecycle

/-! Laws of the table of objects.  A change of one slot is seen in that slot alone; a reference that
leads to no slot changes nothing. -/

set_option autoImplicit false

namespace WorldLocks

namespace Dbref

theorem ofIndex_injective {first second : Nat} (same : ofIndex first = ofIndex second) :
    first = second := by
  have found := congrArg index? same
  simpa using found

theorem ofIndex_ne_nothing (index : Nat) : ofIndex index ≠ .nothing := by
  simp [ofIndex, nothing]

end Dbref

namespace World

/-- Whether every slot of the table has a number. -/
def Fits (world : World) : Prop := world.objects.length ≤ Dbref.maxNumber + 1

instance (world : World) : Decidable world.Fits := inferInstanceAs (Decidable (_ ≤ _))

theorem Fits.le_maxNumber {world : World} (fits : world.Fits) {index : Nat}
    (within : index < world.objects.length) : index ≤ Dbref.maxNumber :=
  Nat.lt_succ_iff.mp (Nat.lt_of_lt_of_le within fits)

@[simp] theorem slot?_ofIndex (world : World) (index : Nat) :
    world.slot? (.ofIndex index) = world.objects[index]? := by
  simp [slot?]

@[simp] theorem slot?_nothing (world : World) : world.slot? .nothing = none := rfl

theorem slot?_eq_some {world : World} {object : Dbref} {record : ObjectRecord} :
    world.slot? object = some record ↔
      ∃ index, object = .ofIndex index ∧ world.objects[index]? = some record := by
  constructor
  · intro found
    obtain ⟨index, here, present⟩ := Option.bind_eq_some_iff.mp found
    exact ⟨index, Dbref.index?_eq_some.mp here, present⟩
  · rintro ⟨index, rfl, present⟩
    rw [slot?_ofIndex, present]

theorem slot?_mem {world : World} {object : Dbref} {record : ObjectRecord}
    (found : world.slot? object = some record) : record ∈ world.objects := by
  obtain ⟨index, -, present⟩ := slot?_eq_some.mp found
  exact List.mem_of_getElem? present

/-- What every record of the table looks like, every reference looks like. -/
theorem elim_slot?_of_forall {α : Type} {world : World} {view : ObjectRecord → α} {default : α}
    (all : ∀ record ∈ world.objects, view record = default) (object : Dbref) :
    (world.slot? object).elim default view = default := by
  cases found : world.slot? object with
  | none => rfl
  | some record => exact all record (slot?_mem found)

theorem record?_eq_some {world : World} {object : Dbref} {record : ObjectRecord} :
    world.record? object = some record ↔
      world.slot? object = some record ∧ record.hasFlag .going = false := by
  simp [record?, Option.filter_eq_some_iff]

theorem ne_nextObject {world : World} {object : Dbref} {record : ObjectRecord}
    (found : world.slot? object = some record) : object ≠ world.nextObject := by
  obtain ⟨index, rfl, present⟩ := slot?_eq_some.mp found
  intro same
  obtain rfl := Dbref.ofIndex_injective same
  simp at present

@[simp] theorem slot?_flush (world : World) (object : Dbref) :
    world.flush.slot? object = world.slot? object := rfl

@[simp] theorem registry_modify (world : World) (object : Dbref)
    (change : ObjectRecord → ObjectRecord) :
    (world.modify object change).registry = world.registry := by
  unfold modify
  split <;> rfl

@[simp] theorem cache_modify (world : World) (object : Dbref)
    (change : ObjectRecord → ObjectRecord) : (world.modify object change).cache = world.cache := by
  unfold modify
  split <;> rfl

@[simp] theorem length_modify (world : World) (object : Dbref)
    (change : ObjectRecord → ObjectRecord) :
    (world.modify object change).objects.length = world.objects.length := by
  unfold modify
  split
  · exact List.length_modify ..
  · rfl

theorem modify_ofIndex (world : World) (index : Nat) (change : ObjectRecord → ObjectRecord) :
    world.modify (.ofIndex index) change =
      { world with objects := world.objects.modify index change } := by
  simp [modify]

theorem modify_of_slot?_none {world : World} {object : Dbref} (missing : world.slot? object = none)
    (change : ObjectRecord → ObjectRecord) : world.modify object change = world := by
  cases here : object.index? with
  | none => simp [modify, here]
  | some index =>
      obtain rfl := Dbref.index?_eq_some.mp here
      rw [slot?_ofIndex, List.getElem?_eq_none_iff] at missing
      rw [modify_ofIndex, List.modify_eq_self missing]

theorem slot?_modify_self (world : World) (object : Dbref)
    (change : ObjectRecord → ObjectRecord) :
    (world.modify object change).slot? object = (world.slot? object).map change := by
  cases found : world.slot? object with
  | none => rw [modify_of_slot?_none found, found, Option.map_none]
  | some record =>
      obtain ⟨index, rfl, present⟩ := slot?_eq_some.mp found
      simp [modify_ofIndex, present]

theorem slot?_modify_of_ne (world : World) {object other : Dbref} (apart : other ≠ object)
    (change : ObjectRecord → ObjectRecord) :
    (world.modify object change).slot? other = world.slot? other := by
  cases here : object.index? with
  | none => simp [modify, here]
  | some index =>
      obtain rfl := Dbref.index?_eq_some.mp here
      cases there : other.index? with
      | none => simp [slot?, there]
      | some otherIndex =>
          obtain rfl := Dbref.index?_eq_some.mp there
          have places : index ≠ otherIndex := fun same => apart (same ▸ rfl)
          simp [modify_ofIndex, places]

theorem slot?_modify (world : World) (object : Dbref) (change : ObjectRecord → ObjectRecord)
    (other : Dbref) :
    (world.modify object change).slot? other =
      (world.slot? other).map fun record => if other = object then change record else record := by
  by_cases same : other = object
  · subst same
    simp [slot?_modify_self]
  · simp [slot?_modify_of_ne _ same, same]

/-- Steps that each change one object, taken for some objects in turn, change each of them once, if
doing it again makes no difference. -/
theorem slot?_foldl {change : ObjectRecord → ObjectRecord} {step : World → Dbref → World}
    (steps : ∀ world object other, (step world object).slot? other =
      (world.slot? other).map fun record => if other = object then change record else record)
    (again : ∀ record, change (change record) = change record) (world : World)
    (objects : List Dbref) (other : Dbref) :
    (objects.foldl step world).slot? other =
      (world.slot? other).map fun record => if other ∈ objects then change record else record := by
  induction objects generalizing world with
  | nil => simp
  | cons object objects ih =>
      rw [List.foldl_cons, ih, steps, Option.map_map]
      refine Option.map_congr fun record _ => ?_
      by_cases here : other = object <;> by_cases later : other ∈ objects <;>
        simp [here, later, again]

theorem slot?_modifyAll {change : ObjectRecord → ObjectRecord}
    (again : ∀ record, change (change record) = change record) (world : World)
    (objects : List Dbref) (other : Dbref) :
    (objects.foldl (fun world object => world.modify object change) world).slot? other =
      (world.slot? other).map fun record => if other ∈ objects then change record else record :=
  slot?_foldl (fun world object other => world.slot?_modify object change other) again world objects
    other

/-! ## Views -/

/-- Whether all objects of two worlds look the same in a view of their records. -/
def SameIn {α : Type} (view : ObjectRecord → α) (first second : World) : Prop :=
  second.objects.map view = first.objects.map view

namespace SameIn

variable {α : Type} {view : ObjectRecord → α} {first second third : World}

theorem refl (view : ObjectRecord → α) (world : World) : SameIn view world world := rfl

theorem trans (one : SameIn view first second) (two : SameIn view second third) :
    SameIn view first third :=
  Eq.trans two one

theorem of_objects_eq (same : SameIn view first second) (objects : third.objects = second.objects) :
    SameIn view first third :=
  (congrArg (List.map view) objects).trans same

theorem modify (same : SameIn view first second) (object : Dbref)
    {change : ObjectRecord → ObjectRecord} (keeps : ∀ record, view (change record) = view record) :
    SameIn view first (second.modify object change) := by
  refine same.trans ?_
  unfold SameIn World.modify
  split
  · next index _ =>
    refine List.ext_getElem? fun place => ?_
    simp only [List.getElem?_map, List.getElem?_modify]
    by_cases here : index = place
    · cases second.objects[place]? <;> simp [here, keeps]
    · simp [here]
  · rfl

theorem foldl {β : Type} {step : World → β → World}
    (steps : ∀ world item, SameIn view first world → SameIn view first (step world item))
    (same : SameIn view first second) (items : List β) :
    SameIn view first (items.foldl step second) := by
  induction items generalizing second with
  | nil => exact same
  | cons item items ih => exact ih (steps second item same)

/-- What looks the same in a view looks the same in every coarser one. -/
theorem coarsen {β : Type} {coarse : ObjectRecord → β} (same : SameIn view first second)
    (shows : ∀ record other, view record = view other → coarse record = coarse other) :
    SameIn coarse first second := by
  unfold SameIn at same ⊢
  have lengths : second.objects.length = first.objects.length := by
    simpa using congrArg List.length same
  refine List.ext_getElem (by simpa using lengths) fun index within _ => ?_
  have there : index < (second.objects.map view).length := by simpa using within
  have here := List.getElem_of_eq same there
  simp only [List.getElem_map] at here ⊢
  exact shows _ _ here

theorem slot? (same : SameIn view first second) (object : Dbref) :
    (second.slot? object).map view = (first.slot? object).map view := by
  unfold World.slot?
  cases object.index? with
  | none => rfl
  | some index =>
      simp only [Option.bind_some, ← List.getElem?_map]
      rw [same]

theorem elim (same : SameIn view first second) (default : α) (object : Dbref) :
    (second.slot? object).elim default view = (first.slot? object).elim default view := by
  have shown (slot : Option ObjectRecord) :
      slot.elim default view = (slot.map view).getD default := by cases slot <;> rfl
  rw [shown, shown, same.slot?]

theorem isSome_slot? (same : SameIn view first second) (object : Dbref) :
    (second.slot? object).isSome = (first.slot? object).isSome := by
  have slots := congrArg Option.isSome (same.slot? object)
  rwa [Option.isSome_map, Option.isSome_map] at slots

end SameIn

/-! ## Outcomes

What holds of the world before an operation and is kept by its parts holds of the world after it,
whether the operation is refused or not. -/

theorem ifExists_world {α : Type} (holds : World → Prop) {world : World} {object : Dbref}
    {next : World → Outcome α} (before : holds world) (after : holds (next world).2) :
    holds (world.ifExists object next).2 := by
  unfold ifExists
  split
  · exact after
  · exact before

theorem ifNothingOrExists_world {α : Type} (holds : World → Prop) {world : World} {object : Dbref}
    {next : World → Outcome α} (before : holds world) (after : holds (next world).2) :
    holds (world.ifNothingOrExists object next).2 := by
  unfold ifNothingOrExists
  split
  · exact after
  · exact ifExists_world holds before after

theorem ifExists_world_of_isValid {α : Type} (holds : World → Prop) {world : World}
    {object : Dbref} {next : World → Outcome α} (before : holds world)
    (after : world.isValid object = true → holds (next world).2) :
    holds (world.ifExists object next).2 := by
  unfold ifExists
  split
  · next valid => exact after valid
  · exact before

theorem ifNothingOrExists_world_of_isValid {α : Type} (holds : World → Prop) {world : World}
    {object : Dbref} {next : World → Outcome α} (before : holds world)
    (after : object = .nothing ∨ world.isValid object = true → holds (next world).2) :
    holds (world.ifNothingOrExists object next).2 := by
  unfold ifNothingOrExists
  split
  · next none => exact after (.inl none)
  · exact ifExists_world_of_isValid holds before fun valid => after (.inr valid)

theorem isSome_slot?_of_isValid {world : World} {object : Dbref}
    (valid : world.isValid object = true) : (world.slot? object).isSome := by
  obtain ⟨record, living⟩ := Option.isSome_iff_exists.mp valid
  rw [(record?_eq_some.mp living).1]
  rfl

theorem ifExists_ok {α : Type} {world : World} {object : Dbref} {next : World → Outcome α}
    {result : α} (done : (world.ifExists object next).1 = .ok result) :
    (next world).1 = .ok result := by
  unfold ifExists at done
  split at done
  · exact done
  · cases done

theorem ifNothingOrExists_ok {α : Type} {world : World} {object : Dbref}
    {next : World → Outcome α} {result : α}
    (done : (world.ifNothingOrExists object next).1 = .ok result) :
    (next world).1 = .ok result := by
  unfold ifNothingOrExists at done
  split at done
  · exact done
  · exact ifExists_ok done

theorem ifNothingOrExists_of_ok {α : Type} {world : World} {object : Dbref}
    {next : World → Outcome α} {result : α}
    (done : (world.ifNothingOrExists object next).1 = .ok result) :
    (object = .nothing ∨ world.isValid object = true) ∧
      world.ifNothingOrExists object next = next world := by
  unfold ifNothingOrExists ifExists at done ⊢
  split at done
  · next nothing => exact ⟨.inl nothing, if_pos nothing⟩
  · next something =>
    split at done
    · next valid => exact ⟨.inr valid, by rw [if_neg something, if_pos valid]⟩
    · cases done

theorem modifySlot_world (holds : World → Prop) {world : World} {object : Dbref}
    {change : ObjectRecord → ObjectRecord} (before : holds world)
    (after : holds (world.modify object change)) : holds (world.modifySlot object change).2 := by
  unfold modifySlot
  split
  · exact after
  · exact before

end World

theorem Outcome.andThen_world {α β : Type} (holds : World → Prop) {outcome : Outcome α}
    {next : α → World → Outcome β} (first : holds outcome.2)
    (later : ∀ result world, holds world → holds (next result world).2) :
    holds (outcome.andThen next).2 := by
  obtain ⟨_ | result, world⟩ := outcome
  · exact first
  · exact later result world first

theorem Outcome.andThen_of_ok {α β : Type} {outcome : Outcome α} {next : α → World → Outcome β}
    {result : α} (answer : outcome.1 = .ok result) :
    outcome.andThen next = next result outcome.2 := by
  obtain ⟨_, world⟩ := outcome
  obtain rfl := answer
  rfl

theorem Outcome.andThen_ok {α β : Type} {outcome : Outcome α} {next : α → World → Outcome β}
    {result : β} (done : (outcome.andThen next).1 = .ok result) :
    ∃ first world, outcome = (.ok first, world) ∧ (next first world).1 = .ok result := by
  obtain ⟨_ | first, world⟩ := outcome
  · cases done
  · exact ⟨first, world, rfl, done⟩

theorem Outcome.andThen_of_error {α β : Type} {outcome : Outcome α}
    {next : α → World → Outcome β} {error : WorldError} (answer : outcome.1 = .error error) :
    outcome.andThen next = (.error error, outcome.2) := by
  obtain ⟨_, world⟩ := outcome
  obtain rfl := answer
  rfl

/-- What is kept when there is a result to go on with is kept anyway. -/
theorem Outcome.andThen_world_of_ok {α β : Type} (holds : World → Prop) {outcome : Outcome α}
    {next : α → World → Outcome β} (first : holds outcome.2)
    (later : ∀ result, outcome.1 = .ok result → holds (next result outcome.2).2) :
    holds (outcome.andThen next).2 := by
  obtain ⟨_ | result, world⟩ := outcome
  · exact first
  · exact later result rfl

end WorldLocks
