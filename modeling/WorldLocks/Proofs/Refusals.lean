import WorldLocks.Proofs.Destroyed.Destroy
import WorldLocks.Proofs.Relations.Descent
import WorldLocks.Proofs.Setting

/-! Refused operations.  Most are refused before they change anything.  Two could be refused later:
taking a parent away, when there is no slot for the parent, and destroying.  But then there is no
link to the parent that could have been taken away, and destroying is never refused once it has
begun.  Cloning and copying are made of several operations and may stop half-way. -/

set_option autoImplicit false

namespace WorldLocks

namespace World

variable {α : Type} {before world : World} {object : Dbref} {outcome : Outcome α}

/-! ## Outcomes -/

/-- Whether two worlds have the same objects and the same definitions. -/
structure SameContents (first second : World) : Prop where
  objects : second.objects = first.objects
  registry : second.registry = first.registry

/-- Whether an outcome leaves a world as it was if it is a refusal. -/
def AllOrNothing (before : World) (outcome : Outcome α) : Prop :=
  ∀ error, outcome.1 = .error error → before.SameContents outcome.2

theorem SameContents.flush (world : World) : world.SameContents world.flush := ⟨rfl, rfl⟩

theorem allOrNothing_done (result : α) : before.AllOrNothing (world.done result) := by
  intro error refused
  cases refused

theorem allOrNothing_refuse (same : before.SameContents world) (error : WorldError) :
    before.AllOrNothing (world.refuse error : Outcome α) :=
  fun _ _ => same

theorem allOrNothing_ifExists {next : World → Outcome α}
    (goesOn : before.AllOrNothing (next before)) :
    before.AllOrNothing (before.ifExists object next) := by
  unfold ifExists
  split
  · exact goesOn
  · exact allOrNothing_refuse ⟨rfl, rfl⟩ _

theorem allOrNothing_ifNothingOrExists {next : World → Outcome α}
    (goesOn : before.AllOrNothing (next before)) :
    before.AllOrNothing (before.ifNothingOrExists object next) := by
  unfold ifNothingOrExists
  split
  · exact goesOn
  · exact allOrNothing_ifExists goesOn

theorem allOrNothing_modifySlot (same : before.SameContents world)
    (change : ObjectRecord → ObjectRecord) :
    before.AllOrNothing (world.modifySlot object change) := by
  unfold modifySlot
  split
  · exact allOrNothing_done ()
  · exact allOrNothing_refuse same _

/-! ## Objects and places -/

theorem allOrNothing_create (world : World) (name : Text) (kind : ObjectKind)
    (owner location : Dbref) :
    world.AllOrNothing (world.create name kind owner location) := by
  apply allOrNothing_ifNothingOrExists
  apply allOrNothing_ifNothingOrExists
  split
  · exact allOrNothing_refuse (.flush world) _
  · exact allOrNothing_done _

theorem Accounted.allOrNothing_destroy (accounted : world.Accounted) (object : Dbref) :
    world.AllOrNothing (world.destroy object) := by
  by_cases inhabited : object = .system
  · rw [World.destroy, if_pos inhabited]
    exact allOrNothing_refuse ⟨rfl, rfl⟩ _
  · cases valid : world.isValid object with
    | true =>
        obtain ⟨after, -, destroyed, -⟩ := accounted.exists_destroy valid inhabited
        rw [destroyed]
        exact allOrNothing_done ()
    | false =>
        rw [World.destroy, if_neg inhabited, ifExists, if_neg (by simp [valid])]
        exact allOrNothing_refuse ⟨rfl, rfl⟩ _

theorem allOrNothing_moveTo (world : World) (object destination : Dbref) :
    world.AllOrNothing (world.moveTo object destination) := by
  apply allOrNothing_ifExists
  split
  · exact allOrNothing_done ()
  · apply allOrNothing_ifExists
    split
    · exact allOrNothing_refuse ⟨rfl, rfl⟩ _
    · exact allOrNothing_done ()

theorem allOrNothing_addParent (world : World) (child parent : Dbref) :
    world.AllOrNothing (world.addParent child parent) := by
  apply allOrNothing_ifExists
  apply allOrNothing_ifExists
  split
  · exact allOrNothing_refuse ⟨rfl, rfl⟩ _
  · dsimp only
    split <;> exact allOrNothing_done ()

theorem modify_eq_self {change : ObjectRecord → ObjectRecord}
    (same : ∀ record, world.slot? object = some record → change record = record) :
    world.modify object change = world := by
  cases found : world.slot? object with
  | none => exact modify_of_slot?_none found change
  | some record =>
      have kept := same record found
      obtain ⟨index, rfl, present⟩ := slot?_eq_some.mp found
      have objects : world.objects.modify index change = world.objects := by
        refine List.ext_getElem? fun place => ?_
        rw [List.getElem?_modify]
        split
        · next here => simp [← here, present, kept]
        · simp
      rw [modify_ofIndex, objects]

theorem ListsChildren.modify_dropParent (lists : world.ListsChildren) {parent : Dbref}
    (missing : world.slot? parent = none) (child : Dbref) :
    world.modify child (·.dropParent parent) = world := by
  refine modify_eq_self fun record found => ?_
  have apart : parent ∉ record.parents := by
    intro listed
    have related : parent ∈ world.parentsOf child := by rwa [parentsOf, found, Option.elim_some]
    have born := lists.mem_childrenOf.mpr related
    rw [childrenOf, missing, Option.elim_none] at born
    cases born
  have kept : record.parents.filter (· ≠ parent) = record.parents :=
    List.filter_eq_self.mpr fun other member => by
      have different : other ≠ parent := fun same => apart (same ▸ member)
      simpa using different
  rw [ObjectRecord.dropParent, kept]

theorem ListsChildren.allOrNothing_removeParent (lists : world.ListsChildren)
    (child parent : Dbref) : world.AllOrNothing (world.removeParent child parent) := by
  have related : world.flush.ListsChildren := lists.of_kinship rfl
  unfold removeParent modifySlot
  -- The child's record changes first, so a missing parent is found out behind a change.
  split
  · dsimp only [done, Outcome.andThen]
    split
    · exact allOrNothing_done ()
    · next present missing =>
      rw [Option.not_isSome_iff_eq_none, slot?_modify, Option.map_eq_none_iff] at missing
      rw [related.modify_dropParent missing child]
      exact allOrNothing_refuse (.flush world) _
  · exact allOrNothing_refuse (.flush world) _

/-! ## Attributes -/

theorem allOrNothing_declareAttr (world : World) (object : Dbref) (name : Text)
    (flags : FlagSet AttrFlag) : world.AllOrNothing (world.declareAttr object name flags) := by
  unfold declareAttr
  split
  · exact allOrNothing_refuse ⟨rfl, rfl⟩ _
  · split
    · exact allOrNothing_refuse ⟨rfl, rfl⟩ _
    · split
      · exact allOrNothing_done _
      · split
        · exact allOrNothing_refuse ⟨rfl, rfl⟩ _
        · split
          · exact allOrNothing_refuse ⟨rfl, rfl⟩ _
          · exact allOrNothing_done _

theorem allOrNothing_undeclareAttr (world : World) (object : Dbref) (name : Text) :
    world.AllOrNothing (world.undeclareAttr object name) := by
  unfold undeclareAttr
  split
  · exact allOrNothing_refuse ⟨rfl, rfl⟩ _
  · split
    · exact allOrNothing_refuse ⟨rfl, rfl⟩ _
    · exact allOrNothing_done _

theorem Balanced.allOrNothing_setValue {loose : Nat → Nat} (balanced : world.Balanced loose)
    (object : Dbref) (handle : AttrDef) (value : Text) :
    world.AllOrNothing (world.setValue object handle value) := by
  intro error refused
  rcases balanced.setValue_cases object handle value with
    ⟨-, -, objects, registry⟩ | ⟨record, stored, -⟩
  · exact ⟨objects, registry⟩
  · rw [stored] at refused
    cases refused

theorem allOrNothing_clearKey (world : World) (object : Dbref) (key : AttrKey) :
    world.AllOrNothing (world.clearKey object key) := by
  unfold clearKey
  dsimp only
  split
  · exact allOrNothing_refuse (.flush world) _
  · split <;> exact allOrNothing_done ()

theorem allOrNothing_freeValues (world : World) (object : Dbref) :
    world.AllOrNothing (world.freeValues object) := by
  unfold freeValues
  dsimp only
  split
  · exact allOrNothing_refuse (.flush world) _
  · exact allOrNothing_done ()

theorem Balanced.sameContents_setLock {loose : Nat → Nat} (balanced : world.Balanced loose)
    {limits : Limits} {player thing : Dbref} {lock : AttrDef} {text : Text} {error : LockError}
    (refused : (world.setLock limits player thing lock text).result = .error error) :
    world.SameContents (world.setLock limits player thing lock text).world := by
  unfold World.setLock at refused ⊢
  split at refused
  · exact ⟨rfl, rfl⟩
  · next compiled ready =>
    rcases balanced.storeLock_cases thing lock compiled.text with
      ⟨_, -, objects, registry⟩ | ⟨stored, -⟩
    · exact ⟨objects, registry⟩
    · simp only [stored] at refused
      cases refused

end World

/-! ## Operations -/

/-- Whether an operation is a single one, not a row of others. -/
def Operation.IsSingle : Operation → Prop
  | .clone .. | .copyNoninherited .. => False
  | _ => True

namespace World

variable {world : World}

theorem AllOrNothing.silent {α : Type} {outcome : Outcome α} {answer : α → Operation.Answer}
    (all : world.AllOrNothing outcome) {error : LockError}
    (refused : (Operation.silent answer outcome).result = .error error) :
    world.SameContents (Operation.silent answer outcome).world := by
  obtain ⟨cause | result, after⟩ := outcome
  · exact all cause rfl
  · cases refused

/-- After every run a single operation that is refused leaves all objects and definitions as they
are. -/
theorem Reachable.sameContents_of_refused {allowed : Operation → Prop}
    (reachable : Reachable allowed world) {operation : Operation} (single : operation.IsSingle)
    {error : LockError} (refused : (operation.perform world).result = .error error) :
    world.SameContents (operation.perform world).world := by
  obtain ⟨loose, balanced⟩ := reachable.covered
  obtain ⟨start, starts, run⟩ := reachable
  cases operation with
  | create name kind owner location =>
      exact (allOrNothing_create world name kind owner location).silent refused
  | clone source owner location => cases single
  | destroy object =>
      have accounted := Reachable.accounted ⟨start, starts, run⟩
      exact (accounted.allOrNothing_destroy object).silent refused
  | moveTo object destination =>
      exact (allOrNothing_moveTo world object destination).silent refused
  | addParent child parent => exact (allOrNothing_addParent world child parent).silent refused
  | removeParent child parent =>
      have kinship := starts.listsChildren.rearranged (run.rearranged starts)
      exact (kinship.allOrNothing_removeParent child parent).silent refused
  | setFlag object flag on => exact (allOrNothing_modifySlot (.flush world) _).silent refused
  | setZone object zone =>
      exact (allOrNothing_ifNothingOrExists (allOrNothing_modifySlot (.flush world) _)).silent
        refused
  | setLink object link => exact (allOrNothing_modifySlot (.flush world) _).silent refused
  | setOwner object owner =>
      exact (allOrNothing_ifExists (allOrNothing_modifySlot (.flush world) _)).silent refused
  | touch object => exact (allOrNothing_modifySlot (.flush world) _).silent refused
  | declareAttr object name flags =>
      exact (allOrNothing_declareAttr world object name flags).silent refused
  | undeclareAttr object name =>
      exact (allOrNothing_undeclareAttr world object name).silent refused
  | setValue object handle value =>
      exact (balanced.allOrNothing_setValue object handle value).silent refused
  | clearValue object handle =>
      exact (allOrNothing_clearKey world object handle.key).silent refused
  | freeValues object => exact (allOrNothing_freeValues world object).silent refused
  | copyNoninherited destination source => cases single
  | setLock limits player thing lock text =>
      cases settled : (world.setLock limits player thing lock text).result with
      | error cause => exact balanced.sameContents_setLock settled
      | ok stored => simp [Operation.perform, settled, Except.map] at refused

/-- No parent is taken away when the parent is missing, and no value is stored under a definition
that is gone. -/
theorem sameContents_of_refused_late :
    let foo : AttrDef := ⟨.declared 0, "FOO".toList, .empty, .system⟩
    let history : List Operation :=
      [.create "Hall".toList .room .nothing .nothing,
        .create "Alice".toList .player .nothing .system,
        .addParent .root .system,
        .declareAttr .system foo.name foo.flags,
        .undeclareAttr .system foo.name]
    let world := Operation.performAll (.new {} 0) history
    let removal := (Operation.removeParent .root ⟨9⟩).perform world
    let write := (Operation.setValue .root foo "value".toList).perform world
    removal.result = .error (.world (.objectNotFound ⟨9⟩)) ∧
      world.SameContents removal.world ∧
      write.result = .error (.world (.definitionFreed 0)) ∧ world.SameContents write.world := by
  intro foo history world removal write
  have reachable : Reachable (fun _ => True) world :=
    ⟨_, .empty {} 0, Leads.refl.performAll fun _ _ => trivial⟩
  have missing : removal.result = .error (.world (.objectNotFound ⟨9⟩)) := by rfl
  have unregistered :
      (world.setValue .root foo "value".toList).1 = .error (.definitionFreed 0) := by
    decide +kernel
  have freed : write.result = .error (.world (.definitionFreed 0)) := by
    simp only [write, Operation.perform, Operation.silent, unregistered]
    rfl
  exact ⟨missing, reachable.sameContents_of_refused trivial missing, freed,
    reachable.sameContents_of_refused trivial freed⟩

end World
end WorldLocks
