import Mathlib.Data.List.TakeWhile
import WorldLocks.Proofs.Refusals
import WorldLocks.Proofs.References.Exact
import WorldLocks.Proofs.Values

/-! Copying values.  What the destination holds is released before what is copied is counted.
Between two objects this makes no difference, as the source goes on holding its definitions.  But a
copy of an object onto itself may release the last reference to a definition.  Then the definition
is gone, the copy stops there, and the object is left without values. -/

set_option autoImplicit false

namespace WorldLocks

theorem takeWhile_congr {α : Type} {first second : α → Bool} {items : List α}
    (same : ∀ item ∈ items, first item = second item) :
    items.takeWhile first = items.takeWhile second := by
  induction items with
  | nil => rfl
  | cons item later ih =>
      obtain ⟨here, others⟩ := List.forall_mem_cons.mp same
      rw [List.takeWhile_cons, List.takeWhile_cons, here, ih others]

namespace World

variable {before world : World} {loose : Nat → Nat} {destination source object : Dbref}
  {record : ObjectRecord}

/-- The values stored on an object whose definitions are not inherited, oldest first. -/
def uninherited (world : World) (object : Dbref) : List AttrValue :=
  (world.valuesOf object).filter fun entry => !world.keyHasFlag entry.key .inherit

/-- Whether there is only one reference left to the definition of a key. -/
def isLast (world : World) : AttrKey → Bool
  | .builtin _ => false
  | .declared serial => world.registry.count? serial = some 1

/-- Whether a copy is of an object onto itself, which holds the last reference to a definition that
is needed. -/
def UndoesItself (world : World) (destination source : Dbref) : Prop :=
  destination = source ∧ ∃ entry ∈ world.uninherited source, world.isLast entry.key = true

/-- Whether one world is another in which an object holds other values in place of its own, and
these have been released and some values counted. -/
structure Replaces (before after : World) (object : Dbref) (values counted : List AttrValue) :
    Prop where
  record : ∃ old, before.slot? object = some old ∧ after.slot? object = some (old.withValues values)
  others : ∀ other, other ≠ object → after.slot? other = before.slot? other
  counts : ∀ serial,
    (after.registry.count? serial).getD 0 + valueReferences (before.valuesOf object) serial =
      (before.registry.count? serial).getD 0 + valueReferences counted serial

/-- What a copy of values comes to. -/
structure Copies (before : World) (destination source : Dbref) (outcome : Outcome Unit) :
    Prop where
  ok_iff : outcome.1 = .ok () ↔ (before.slot? destination).isSome ∧ (before.slot? source).isSome ∧
    ¬ before.UndoesItself destination source
  copied : outcome.1 = .ok () → before.Replaces outcome.2 destination (before.uninherited source)
    (before.uninherited source)
  allOrNothing : ¬ before.UndoesItself destination source → before.AllOrNothing outcome
  /-- The values are lost, and those before the one that stops the copy stay counted. -/
  undone : before.UndoesItself destination source → before.Replaces outcome.2 destination []
    ((before.uninherited source).takeWhile fun entry => !before.isLast entry.key)

/-! ## Counting what is copied -/

/-- Whether the definition of a key is there. -/
def isLive (world : World) (key : AttrKey) : Bool := (world.definition? key).isSome

theorem isLive_declared (world : World) (serial : Nat) :
    world.isLive (.declared serial) = (world.registry.count? serial).isSome := by
  simp only [isLive, definition?, Registry.definition?, Registry.count?, Option.isSome_map]

theorem addRef_eq_error {key : AttrKey} {error : WorldError}
    (refused : world.addRef key = .error error) : world.isLive key = false := by
  cases key with
  | builtin which => cases refused
  | declared serial =>
      cases counting : world.registry.addRef? serial with
      | some registry => simp [addRef, counting] at refused
      | none =>
          rw [isLive_declared, Registry.addRef?_eq_none.mp counting]
          rfl

theorem isLive_of_addRef {key : AttrKey} {counted : World}
    (added : world.addRef key = .ok counted) :
    world.isLive key = true ∧ counted.isLive = world.isLive := by
  cases key with
  | builtin which =>
      obtain rfl : world = counted := Except.ok.inj added
      exact ⟨rfl, rfl⟩
  | declared serial =>
      cases counting : world.registry.addRef? serial with
      | none => simp [addRef, counting] at added
      | some registry =>
          obtain rfl : { world with registry := registry } = counted := by
            simpa [addRef, counting] using added
          constructor
          · rw [isLive_declared, Option.isSome_iff_ne_none, Ne, ← Registry.addRef?_eq_none,
              counting]
            exact Option.some_ne_none _
          · funext other
            cases other with
            | builtin which => rfl
            | declared target =>
                rw [isLive_declared, isLive_declared, Registry.count?_addRef? counting]
                split
                · next same => rw [same, Option.isSome_map]
                · rfl

/-- Values are counted up to the first whose definition is gone. -/
theorem Balanced.addRefs_takeWhile (balanced : world.Balanced loose) (values : List AttrValue) :
    ((world.addRefs values).1 = .ok () ↔ ∀ entry ∈ values, world.isLive entry.key = true) ∧
      (world.addRefs values).2.objects = world.objects ∧
      (world.addRefs values).2.Balanced fun serial =>
        loose serial + valueReferences (values.takeWhile (world.isLive ·.key)) serial := by
  induction values generalizing world loose with
  | nil => exact ⟨iff_of_true rfl (by simp), rfl, balanced⟩
  | cons entry later ih =>
      unfold World.addRefs
      cases added : world.addRef entry.key with
      | error error =>
          have gone := addRef_eq_error added
          refine ⟨by simp [refuse, gone], rfl, ?_⟩
          exact balanced.of_eq fun serial => by simp [gone]
      | ok counted =>
          obtain ⟨live, same⟩ := isLive_of_addRef added
          obtain ⟨objects, loosened⟩ := balanced.addRef added
          obtain ⟨all, sameObjects, kept⟩ := ih loosened
          rw [same] at all kept
          refine ⟨?_, sameObjects.trans objects, ?_⟩
          · rw [List.forall_mem_cons, and_iff_right live]
            exact all
          · refine kept.of_eq fun serial => ?_
            simp only [List.takeWhile_cons, live, if_true, valueReferences_cons, Nat.add_assoc]

theorem Balanced.count_getD (balanced : world.Balanced loose) (serial : Nat) :
    (world.registry.count? serial).getD 0 = world.references serial + loose serial := by
  rw [balanced.counts, countOf]
  split
  · next none => exact none.symm
  · rfl

theorem Balanced.isLive_iff (balanced : world.Balanced loose) {serial : Nat} :
    world.isLive (.declared serial) = true ↔ 0 < world.references serial + loose serial := by
  rw [isLive_declared, balanced.counts, countOf, Nat.pos_iff_ne_zero]
  split <;> simp_all

/-! ## Releasing what is replaced -/

theorem references_freeValues (found : world.slot? object = some record) (serial : Nat) :
    (world.freeValues object).2.references serial + valueReferences record.values serial =
      world.references serial := by
  have objects : (world.freeValues object).2.objects =
      (world.flush.modify object (·.withValues [])).objects := by
    simp only [World.freeValues, slot?_flush, found, done, objects_releaseAll]
    rfl
  have moved := @references_modify world.flush object record found (·.withValues []) serial
  have flushed : world.flush.references serial = world.references serial := rfl
  have weighs : record.references serial =
      (record.withValues []).references serial + valueReferences record.values serial := rfl
  rw [references, objects, ← references]
  omega

/-- When an object's own values have been released, only those definitions are gone that nothing
else refers to. -/
theorem Balanced.isLive_freeValues (balanced : world.Balanced loose)
    (found : world.slot? object = some record) {entry : AttrValue}
    (member : entry ∈ record.values) :
    (world.freeValues object).2.isLive entry.key = !world.isLast entry.key := by
  cases key : entry.key with
  | builtin which => rfl
  | declared serial =>
      have stored : (record.value? (.declared serial)).isSome = true := by
        rw [ObjectRecord.isSome_value?, List.any_eq_true]
        exact ⟨entry, member, decide_eq_true key⟩
      have once := (balanced.tidy record (slot?_mem found)).valueReferences_eq serial
      -- Only one of the references is the object's own, so it was the last if none is left.
      rw [if_pos stored] at once
      have freed := references_freeValues found serial
      have live := @Balanced.isLive_iff _ _ (balanced.freeValues object) serial
      have last : world.isLast (.declared serial) = true ↔
          world.references serial + loose serial = 1 := by
        rw [isLast, decide_eq_true_eq, balanced.counts, countOf_eq_some]
        omega
      rw [Bool.eq_iff_iff, live, Bool.not_eq_true', Bool.eq_false_iff, Ne, last]
      omega

/-- Another object goes on holding its definitions. -/
theorem Balanced.isLive_freeValues_of_ne (balanced : world.Balanced loose)
    (apart : destination ≠ source) {target : ObjectRecord}
    (found : world.slot? destination = some target) (holds : world.slot? source = some record)
    {entry : AttrValue} (member : entry ∈ record.values) :
    (world.freeValues destination).2.isLive entry.key = true := by
  cases key : entry.key with
  | builtin which => rfl
  | declared serial =>
      obtain ⟨freed, emptied, -, elsewhere⟩ := exists_freeValues found
      have freedBalanced := balanced.freeValues destination
      rw [emptied] at freedBalanced ⊢
      rw [← elsewhere source apart.symm] at holds
      have stored := valueReferences_pos member key
      have refers := references_pos (slot?_mem holds) (Nat.add_pos_right _ stored)
      exact freedBalanced.isLive_iff.mpr (Nat.add_pos_left refers _)

/-! ## Copies -/

theorem valuesOf_eq (found : world.slot? object = some record) :
    world.valuesOf object = record.values := by
  rw [valuesOf, found, Option.elim_some]

/-- What is copied is still there when the destination has been emptied, except for what it held the
last reference to if it is copied onto itself. -/
theorem Balanced.isLive_copied (balanced : world.Balanced loose) {target : ObjectRecord}
    (found : world.slot? destination = some target) (holds : world.slot? source = some record)
    {entry : AttrValue} (member : entry ∈ world.uninherited source) :
    (world.freeValues destination).2.isLive entry.key =
      !(destination = source && world.isLast entry.key) := by
  have stored : entry ∈ record.values := by
    rw [uninherited, valuesOf_eq holds] at member
    exact List.mem_of_mem_filter member
  by_cases same : destination = source
  · subst same
    simpa using balanced.isLive_freeValues holds stored
  · simpa [same] using balanced.isLive_freeValues_of_ne same found holds stored

theorem UndoesItself.exists_record (undoes : world.UndoesItself destination source) :
    ∃ record, world.slot? source = some record ∧ world.slot? destination = some record := by
  obtain ⟨rfl, entry, member, -⟩ := undoes
  cases found : world.slot? destination with
  | none => simp [uninherited, valuesOf, found] at member
  | some record => exact ⟨record, rfl, rfl⟩

theorem Balanced.undoesItself_iff (balanced : before.Balanced loose) {target : ObjectRecord}
    (found : before.slot? destination = some target) (holds : before.slot? source = some record) :
    before.UndoesItself destination source ↔ ¬ ∀ entry ∈ before.uninherited source,
      (before.freeValues destination).2.isLive entry.key = true := by
  rw [UndoesItself, ← exists_and_left]
  simp only [not_forall]
  refine exists_congr fun entry => ?_
  by_cases member : entry ∈ before.uninherited source
  · rw [balanced.isLive_copied found holds member]
    simp [member]
  · simp [member]

theorem copyNoninherited_eq {target : ObjectRecord}
    (found : before.slot? destination = some target) (holds : before.slot? source = some record) :
    before.copyNoninherited destination source =
      ((before.freeValues destination).2.addRefs (before.uninherited source)).andThen
        fun _ world =>
          (world.modify destination (·.withValues (before.uninherited source))).done () := by
  obtain ⟨freed, emptied, -, -⟩ := exists_freeValues found
  rw [copyNoninherited, holds, uninherited, valuesOf_eq holds, emptied]
  rfl

/-- A destination that has been emptied before some values are counted, with whatever is put there
in the end. -/
theorem Balanced.replaces (balanced : before.Balanced loose) {target : ObjectRecord}
    (found : before.slot? destination = some target) {after : World}
    {copied values : List AttrValue}
    (registry : after.registry = ((before.freeValues destination).2.addRefs copied).2.registry)
    (here : after.slot? destination = some (target.withValues values))
    (others : ∀ other, other ≠ destination → after.slot? other = before.slot? other) :
    before.Replaces after destination values
      (copied.takeWhile ((before.freeValues destination).2.isLive ·.key)) where
  record := ⟨target, found, here⟩
  others := others
  counts := by
    intro serial
    have freed := references_freeValues found serial
    obtain ⟨-, objects, kept⟩ := (balanced.freeValues destination).addRefs_takeWhile copied
    rw [registry, kept.count_getD, balanced.count_getD, valuesOf_eq found, references, objects,
      ← references]
    omega

theorem slot?_addRefs_freeValues (balanced : before.Balanced loose) {target : ObjectRecord}
    (found : before.slot? destination = some target) (values : List AttrValue) (other : Dbref) :
    ((before.freeValues destination).2.addRefs values).2.slot? other =
      if other = destination then some (target.withValues []) else before.slot? other := by
  obtain ⟨-, objects, -⟩ := (balanced.freeValues destination).addRefs_takeWhile values
  obtain ⟨freed, emptied, here, elsewhere⟩ := exists_freeValues found
  rw [slot?, objects, ← slot?, emptied]
  split
  · next same => exact same ▸ here
  · next apart => exact elsewhere other apart

theorem Balanced.copies_of_slots (balanced : before.Balanced loose) {target : ObjectRecord}
    (found : before.slot? destination = some target) (holds : before.slot? source = some record) :
    before.Copies destination source (before.copyNoninherited destination source) := by
  have undoes := balanced.undoesItself_iff found holds
  have slots := slot?_addRefs_freeValues balanced found (before.uninherited source)
  obtain ⟨all, -, -⟩ :=
    (balanced.freeValues destination).addRefs_takeWhile (before.uninherited source)
  have elsewhere (other : Dbref) (apart : other ≠ destination) :=
    (slots other).trans (if_neg apart)
  rw [copyNoninherited_eq found holds]
  cases answer : ((before.freeValues destination).2.addRefs (before.uninherited source)).1 with
  | error error =>
      have gone : before.UndoesItself destination source := by
        refine undoes.mpr fun every => ?_
        rw [all.mpr every] at answer
        cases answer
      have alive (entry : AttrValue) (member : entry ∈ before.uninherited source) :
          (before.freeValues destination).2.isLive entry.key = !before.isLast entry.key := by
        simpa [gone.1] using balanced.isLive_copied found holds member
      have emptied :=
        balanced.replaces found rfl ((slots destination).trans (if_pos rfl)) elsewhere
      rw [takeWhile_congr alive] at emptied
      rw [Outcome.andThen_of_error answer]
      exact ⟨by simp [gone], nofun, fun apart => absurd gone apart, fun _ => emptied⟩
  | ok =>
      have every := all.mp answer
      have apart : ¬ before.UndoesItself destination source := fun gone => undoes.mp gone every
      let counted := ((before.freeValues destination).2.addRefs (before.uninherited source)).2
      have copied : before.Replaces
          (counted.modify destination (·.withValues (before.uninherited source))) destination
          (before.uninherited source) ((before.uninherited source).takeWhile
            ((before.freeValues destination).2.isLive ·.key)) := by
        refine balanced.replaces found (registry_modify ..) ?_ fun other apart => ?_
        · rw [slot?_modify_self, slots, if_pos rfl]
          rfl
        · rw [slot?_modify_of_ne _ apart, elsewhere other apart]
      rw [List.takeWhile_eq_self_iff.mpr every] at copied
      rw [Outcome.andThen_of_ok answer]
      exact ⟨by simp [done, found, holds, apart], fun _ => copied, fun _ => allOrNothing_done (),
        fun gone => absurd gone apart⟩

/-- What copying comes to, in every balanced world. -/
theorem Balanced.copies (balanced : before.Balanced loose) (destination source : Dbref) :
    before.Copies destination source (before.copyNoninherited destination source) := by
  -- Without a source or a destination nothing has been done.
  have refused {outcome : Outcome Unit} {error : WorldError}
      (missing : before.slot? source = none ∨ before.slot? destination = none)
      (same : before.AllOrNothing outcome) (answer : outcome.1 = .error error) :
      before.Copies destination source outcome := by
    have apart : ¬ before.UndoesItself destination source := by
      intro undoes
      obtain ⟨record, holds, found⟩ := undoes.exists_record
      simp [holds, found] at missing
    refine ⟨?_, ?_, fun _ => same, fun undoes => absurd undoes apart⟩
    · rw [answer]
      rcases missing with missing | missing <;> simp [missing]
    · rw [answer]
      nofun
  cases holds : before.slot? source with
  | none =>
      rw [World.copyNoninherited, holds]
      exact refused (.inl holds) (allOrNothing_refuse ⟨rfl, rfl⟩ _) rfl
  | some record =>
      cases found : before.slot? destination with
      | none =>
          have stops : before.freeValues destination =
              before.flush.refuse (.objectNotFound destination) := by
            simp [World.freeValues, found]
          rw [World.copyNoninherited, holds, stops]
          exact refused (.inr found) (allOrNothing_refuse (.flush before) _) rfl
      | some target => exact balanced.copies_of_slots found holds

/-- In every world that can be reached, copying values is refused without an effect or gives the
destination what the source holds without inheriting it, unless it undoes itself. -/
theorem Reachable.copies_or_undoes {allowed : Operation → Prop} (reachable : Reachable allowed before)
    (destination source : Dbref) :
    before.Copies destination source (before.copyNoninherited destination source) := by
  obtain ⟨loose, balanced⟩ := reachable.covered
  exact balanced.copies destination source

/-- Alice holds a value for an attribute that the hall declared and has taken back.  Copying her
values onto herself stops there; they are lost, and the one before stays counted. -/
theorem copies_onto_itself :
    ∃ world : World, Reachable (fun _ => True) world ∧
      let outcome := world.copyNoninherited .root .root
      world.Copies .root .root outcome ∧ world.UndoesItself .root .root ∧
        outcome.1 = .error (.definitionFreed 1) ∧ outcome.2.valuesOf .root = [] ∧
        world.registry.count? 0 = some 2 ∧ outcome.2.registry.count? 0 = some 2 := by
  let bar : AttrDef := ⟨.declared 0, "BAR".toList, .empty, .root⟩
  let foo : AttrDef := ⟨.declared 1, "FOO".toList, .empty, .system⟩
  let history : List Operation :=
    [.create "Hall".toList .room .nothing .nothing,
      .create "Alice".toList .player .nothing .system,
      .declareAttr .root "BAR".toList .empty,
      .declareAttr .system "FOO".toList .empty,
      .setValue .root bar "kept".toList,
      .setValue .root foo "lost".toList,
      .undeclareAttr .system "FOO".toList]
  have reachable : Reachable (fun _ => True) (Operation.performAll (.new {} 0) history) :=
    ⟨_, .empty {} 0, Leads.refl.performAll fun _ _ => trivial⟩
  refine ⟨_, reachable, reachable.copies_or_undoes .root .root, ⟨rfl, ⟨.declared 1, "lost".toList⟩, ?_⟩, ?_⟩
  · decide +kernel
  · decide +kernel

end World
end WorldLocks
