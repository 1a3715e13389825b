import WorldLocks.Proofs.Relations.Attributes
import WorldLocks.Proofs.Walks

/-! Where objects are and what they descend from, as functions of the world, and what the parts of
operations make of these functions.  A reference that leads to no slot is nowhere, has nothing
inside it and has no relatives, so that the laws hold of all references alike. -/

set_option autoImplicit false

namespace WorldLocks

theorem count_filter_ne (objects : List Dbref) (object other : Dbref) :
    (objects.filter (· ≠ object)).count other =
      if other = object then 0 else objects.count other := by
  by_cases same : other = object
  · rw [if_pos same]
    exact List.count_eq_zero.mpr (by simp [same])
  · rw [if_neg same, List.count_filter (by simpa using same)]

namespace ObjectRecord

def isExit (record : ObjectRecord) : Bool := record.kind = .exit

/-- What a record lists as inside it: its exits or everything else. -/
def inside (record : ObjectRecord) (asExit : Bool) : List Dbref :=
  if asExit then record.exits else record.contents

/-- What a record says about places. -/
def placing (record : ObjectRecord) : Bool × Dbref × List Dbref × List Dbref :=
  (record.isExit, record.location, record.contents, record.exits)

/-- What a record says about descent. -/
def kinship (record : ObjectRecord) : List Dbref × List Dbref := (record.parents, record.children)

/-- A record without the lists of what its object is related to. -/
def emptied (record : ObjectRecord) : ObjectRecord :=
  { record with parents := [], children := [], contents := [], exits := [] }

/-! ## Changes of one record -/

variable (record : ObjectRecord) (kind : ObjectKind) (object place : Dbref) (asExit : Bool)

@[simp] theorem location_receive : (record.receive kind object).location = record.location := by
  unfold receive
  split <;> rfl

@[simp] theorem kind_receive : (record.receive kind object).kind = record.kind := by
  unfold receive
  split <;> rfl

@[simp] theorem kinship_receive : (record.receive kind object).kinship = record.kinship := by
  unfold receive
  split <;> rfl

theorem inside_receive : (record.receive kind object).inside asExit =
    if asExit = decide (kind = .exit) then record.inside asExit ++ [object]
    else record.inside asExit := by
  unfold receive inside
  cases asExit <;> by_cases exits : kind = .exit <;> simp [exits]

theorem inside_dismiss : (record.dismiss object).inside asExit =
    (record.inside asExit).filter (· ≠ object) := by
  unfold dismiss inside
  cases asExit <;> rfl

@[simp] theorem inside_withLocation :
    (record.withLocation place).inside asExit = record.inside asExit := rfl

@[simp] theorem parents_withLocation : (record.withLocation place).parents = record.parents := rfl

@[simp] theorem children_withLocation :
    (record.withLocation place).children = record.children := rfl

@[simp] theorem location_dropParent : (record.dropParent object).location = record.location := rfl

@[simp] theorem inside_dropParent :
    (record.dropParent object).inside asExit = record.inside asExit := rfl

@[simp] theorem parents_dropParent :
    (record.dropParent object).parents = record.parents.filter (· ≠ object) := rfl

@[simp] theorem children_dropParent : (record.dropParent object).children = record.children := rfl

@[simp] theorem location_dropChild : (record.dropChild object).location = record.location := rfl

@[simp] theorem inside_dropChild :
    (record.dropChild object).inside asExit = record.inside asExit := rfl

@[simp] theorem parents_dropChild : (record.dropChild object).parents = record.parents := rfl

@[simp] theorem children_dropChild :
    (record.dropChild object).children = record.children.filter (· ≠ object) := rfl

@[simp] theorem location_emptied : record.emptied.location = record.location := rfl

@[simp] theorem inside_emptied : record.emptied.inside asExit = [] := by cases asExit <;> rfl

@[simp] theorem parents_emptied : record.emptied.parents = [] := rfl

@[simp] theorem children_emptied : record.emptied.children = [] := rfl

end ObjectRecord

namespace World

/-! ## Places -/

def location (world : World) (object : Dbref) : Dbref :=
  (world.slot? object).elim .nothing (·.location)

def isExit (world : World) (object : Dbref) : Bool := (world.slot? object).elim false (·.isExit)

def inside (world : World) (place : Dbref) (asExit : Bool) : List Dbref :=
  (world.slot? place).elim [] (·.inside asExit)

/-- Whether two worlds have the same places and the same descent. -/
structure SameRelations (first second : World) : Prop where
  placing : first.SameIn ObjectRecord.placing second
  kinship : first.SameIn ObjectRecord.kinship second

variable {first second world : World} {object place other : Dbref} {asExit : Bool}

theorem location_of_placing (same : first.SameIn ObjectRecord.placing second) (object : Dbref) :
    second.location object = first.location object :=
  (same.coarsen fun _ _ equal => congrArg (·.2.1) equal :
    first.SameIn ObjectRecord.location second).elim .nothing object

theorem isExit_of_placing (same : first.SameIn ObjectRecord.placing second) (object : Dbref) :
    second.isExit object = first.isExit object :=
  (same.coarsen fun _ _ equal => congrArg (·.1) equal :
    first.SameIn ObjectRecord.isExit second).elim false object

theorem inside_of_placing (same : first.SameIn ObjectRecord.placing second) (place : Dbref)
    (asExit : Bool) : second.inside place asExit = first.inside place asExit := by
  have lists : first.SameIn (·.inside asExit) second := by
    refine same.coarsen fun record other equal => ?_
    cases asExit with
    | false => exact congrArg (·.2.2.1) equal
    | true => exact congrArg (·.2.2.2) equal
  exact lists.elim [] place

theorem parentsOf_of_kinship (same : first.SameIn ObjectRecord.kinship second) (object : Dbref) :
    second.parentsOf object = first.parentsOf object :=
  (same.coarsen fun _ _ equal => congrArg (·.1) equal :
    first.SameIn ObjectRecord.parents second).elim [] object

theorem childrenOf_of_kinship (same : first.SameIn ObjectRecord.kinship second) (object : Dbref) :
    second.childrenOf object = first.childrenOf object :=
  (same.coarsen fun _ _ equal => congrArg (·.2) equal :
    first.SameIn ObjectRecord.children second).elim [] object

namespace SameRelations

theorem refl (world : World) : world.SameRelations world := ⟨.refl _ _, .refl _ _⟩

theorem of_objects_eq (same : second.objects = first.objects) : first.SameRelations second :=
  ⟨congrArg (List.map _) same, congrArg (List.map _) same⟩

theorem of_sameBare (same : first.SameBare second) : first.SameRelations second := by
  refine ⟨same.coarsen fun record other equal => ?_, same.coarsen fun record other equal => ?_⟩
  · exact (congrArg ObjectRecord.placing equal : record.bare.placing = other.bare.placing)
  · exact (congrArg ObjectRecord.kinship equal : record.bare.kinship = other.bare.kinship)

theorem modify (world : World) (object : Dbref) {change : ObjectRecord → ObjectRecord}
    (placing : ∀ record, (change record).placing = record.placing)
    (kinship : ∀ record, (change record).kinship = record.kinship) :
    world.SameRelations (world.modify object change) :=
  ⟨(SameIn.refl _ world).modify object placing, (SameIn.refl _ world).modify object kinship⟩

theorem modifySlot (world : World) (object : Dbref) {change : ObjectRecord → ObjectRecord}
    (placing : ∀ record, (change record).placing = record.placing)
    (kinship : ∀ record, (change record).kinship = record.kinship) :
    world.SameRelations (world.modifySlot object change).2 :=
  modifySlot_world world.SameRelations (.refl world) (.modify world object placing kinship)

end SameRelations

theorem location_of_slot?_none (missing : world.slot? object = none) :
    world.location object = .nothing := by
  rw [location, missing, Option.elim_none]

theorem liesIn_iff :
    world.LiesIn object place ↔ world.location object = place ∧ place ≠ .nothing := by
  unfold LiesIn placeOf location
  cases world.slot? object with
  | none => simp +contextual [eq_comm]
  | some record =>
      dsimp only [Option.elim_some]
      split
      · next nowhere => simp +contextual [nowhere, eq_comm]
      · next somewhere =>
        constructor
        · intro member
          obtain rfl := List.mem_singleton.mp member
          exact ⟨rfl, somewhere⟩
        · rintro ⟨rfl, -⟩
          exact List.mem_singleton_self _

/-! ## Putting in and taking out -/

theorem slot?_putInto {record : ObjectRecord} (found : world.slot? object = some record)
    (place other : Dbref) :
    (world.putInto object place).slot? other = (world.slot? other).map fun slot =>
      let received := if other = place then slot.receive record.kind object else slot
      if other = object then received.withLocation place else received := by
  unfold putInto
  rw [found]
  dsimp only
  rw [slot?_modify, slot?_modify, Option.map_map]
  rfl

theorem location_putInto (present : (world.slot? object).isSome) (place other : Dbref) :
    (world.putInto object place).location other =
      if other = object then place else world.location other := by
  obtain ⟨record, found⟩ := Option.isSome_iff_exists.mp present
  unfold location
  rw [slot?_putInto found]
  cases there : world.slot? other with
  | none =>
      have apart : other ≠ object := fun same => by simp [same, found] at there
      simp [apart]
  | some slot =>
      dsimp only [Option.map_some, Option.elim_some]
      split
      · rfl
      · split
        · exact slot.location_receive record.kind object
        · rfl

theorem isExit_putInto (world : World) (object place other : Dbref) :
    (world.putInto object place).isExit other = world.isExit other := by
  unfold putInto
  split
  · next record found =>
    have kept (kind : ObjectKind) (object : Dbref) (slot : ObjectRecord) :
        (slot.receive kind object).isExit = slot.isExit := by
      unfold ObjectRecord.isExit
      rw [slot.kind_receive]
    exact (((SameIn.refl ObjectRecord.isExit world).modify place (kept record.kind object)).modify
      object fun _ => by rfl).elim false other
  · rfl

theorem inside_putInto (present : (world.slot? object).isSome)
    (there : (world.slot? place).isSome) (other : Dbref) (asExit : Bool) :
    (world.putInto object place).inside other asExit =
      if other = place ∧ asExit = world.isExit object then world.inside other asExit ++ [object]
      else world.inside other asExit := by
  obtain ⟨record, found⟩ := Option.isSome_iff_exists.mp present
  obtain ⟨slot, placed⟩ := Option.isSome_iff_exists.mp there
  have exits : world.isExit object = decide (record.kind = .exit) := by
    unfold isExit
    rw [found]
    rfl
  have kept (slot : ObjectRecord) :
      (if other = object then slot.withLocation place else slot).inside asExit =
        slot.inside asExit := by split <;> rfl
  unfold inside
  rw [slot?_putInto found, exits]
  by_cases same : other = place
  · subst same
    simp [placed, kept, ObjectRecord.inside_receive]
  · cases world.slot? other with
    | none => simp [same]
    | some slot => simp [same, kept]

theorem kinship_putInto (world : World) (object place : Dbref) :
    world.SameIn ObjectRecord.kinship (world.putInto object place) := by
  unfold putInto
  split
  · next record _ =>
    refine ((SameIn.refl _ world).modify place fun slot => ?_).modify object fun _ => by rfl
    exact slot.kinship_receive record.kind object
  · exact .refl _ world

theorem slot?_takeOut {record : ObjectRecord} (found : world.slot? object = some record)
    (other : Dbref) :
    (world.takeOut object).slot? other = (world.slot? other).map fun slot =>
      let dismissed := if other = record.location then slot.dismiss object else slot
      if other = object then dismissed.withLocation .nothing else dismissed := by
  unfold takeOut
  rw [found]
  dsimp only
  rw [slot?_modify, slot?_modify, Option.map_map]
  rfl

theorem takeOut_of_slot?_none (missing : world.slot? object = none) :
    world.takeOut object = world := by
  unfold takeOut
  rw [missing]

theorem location_takeOut (world : World) (object other : Dbref) :
    (world.takeOut object).location other =
      if other = object then .nothing else world.location other := by
  cases found : world.slot? object with
  | none =>
      rw [takeOut_of_slot?_none found]
      split
      · next same => rw [same, location, found, Option.elim_none]
      · rfl
  | some record =>
      unfold location
      rw [slot?_takeOut found]
      cases world.slot? other with
      | none => simp
      | some slot =>
          dsimp only [Option.map_some, Option.elim_some]
          split
          · rfl
          · split <;> rfl

theorem isExit_takeOut (world : World) (object other : Dbref) :
    (world.takeOut object).isExit other = world.isExit other := by
  unfold takeOut
  split
  · next record _ =>
    exact (((SameIn.refl ObjectRecord.isExit world).modify record.location fun _ => by rfl).modify
      object fun _ => by rfl).elim false other
  · rfl

theorem inside_takeOut (world : World) (object place : Dbref) (asExit : Bool) :
    (world.takeOut object).inside place asExit =
      if place = world.location object then (world.inside place asExit).filter (· ≠ object)
      else world.inside place asExit := by
  cases found : world.slot? object with
  | none =>
      have nowhere : world.inside .nothing asExit = [] := rfl
      rw [takeOut_of_slot?_none found, location, found, Option.elim_none]
      split
      · next same => rw [same, nowhere, List.filter_nil]
      · rfl
  | some record =>
      have here : world.location object = record.location := by
        rw [location, found, Option.elim_some]
      unfold inside
      rw [slot?_takeOut found, here]
      cases world.slot? place with
      | none => simp
      | some slot =>
          dsimp only [Option.map_some, Option.elim_some]
          have kept (slot : ObjectRecord) :
              (if place = object then slot.withLocation .nothing else slot).inside asExit =
                slot.inside asExit := by split <;> rfl
          rw [kept]
          split
          · exact slot.inside_dismiss object asExit
          · rfl

theorem kinship_takeOut (world : World) (object : Dbref) :
    world.SameIn ObjectRecord.kinship (world.takeOut object) := by
  unfold takeOut
  split
  · exact ((SameIn.refl _ world).modify _ fun _ => by rfl).modify object fun _ => by rfl
  · exact .refl _ world

/-! ## Parent links -/

/-- The world with one more link from a child to a parent. -/
def linkParent (world : World) (child parent : Dbref) : World :=
  (world.modify child fun record => { record with parents := record.parents ++ [parent] }).modify
    parent fun record => { record with children := record.children ++ [child] }

/-- The world without any link from a child to a parent. -/
def unlinkParent (world : World) (child parent : Dbref) : World :=
  (world.modify child (·.dropParent parent)).modify parent (·.dropChild child)

variable {child parent : Dbref}

theorem parentsOf_linkParent (present : (world.slot? child).isSome) (parent other : Dbref) :
    (world.linkParent child parent).parentsOf other =
      if other = child then world.parentsOf other ++ [parent] else world.parentsOf other := by
  unfold parentsOf linkParent
  rw [slot?_modify, slot?_modify]
  cases there : world.slot? other with
  | none =>
      have apart : other ≠ child := fun same => by simp [same ▸ there] at present
      simp [apart]
  | some record => simp [apply_ite ObjectRecord.parents]

theorem childrenOf_linkParent (present : (world.slot? parent).isSome) (child other : Dbref) :
    (world.linkParent child parent).childrenOf other =
      if other = parent then world.childrenOf other ++ [child] else world.childrenOf other := by
  unfold childrenOf linkParent
  rw [slot?_modify, slot?_modify]
  cases there : world.slot? other with
  | none =>
      have apart : other ≠ parent := fun same => by simp [same ▸ there] at present
      simp [apart]
  | some record => simp [apply_ite ObjectRecord.children]

theorem placing_linkParent (world : World) (child parent : Dbref) :
    world.SameIn ObjectRecord.placing (world.linkParent child parent) :=
  ((SameIn.refl _ world).modify child fun _ => by rfl).modify parent fun _ => by rfl

theorem parentsOf_unlinkParent (world : World) (child parent other : Dbref) :
    (world.unlinkParent child parent).parentsOf other =
      if other = child then (world.parentsOf other).filter (· ≠ parent)
      else world.parentsOf other := by
  unfold parentsOf unlinkParent
  rw [slot?_modify, slot?_modify]
  cases world.slot? other with
  | none => simp
  | some record => simp [apply_ite ObjectRecord.parents]

theorem childrenOf_unlinkParent (world : World) (child parent other : Dbref) :
    (world.unlinkParent child parent).childrenOf other =
      if other = parent then (world.childrenOf other).filter (· ≠ child)
      else world.childrenOf other := by
  unfold childrenOf unlinkParent
  rw [slot?_modify, slot?_modify]
  cases world.slot? other with
  | none => simp
  | some record => simp [apply_ite ObjectRecord.children]

theorem placing_unlinkParent (world : World) (child parent : Dbref) :
    world.SameIn ObjectRecord.placing (world.unlinkParent child parent) :=
  ((SameIn.refl _ world).modify child fun _ => by rfl).modify parent fun _ => by rfl

/-! ## New objects -/

theorem slot?_nextObject (world : World) : world.slot? world.nextObject = none := by
  simp [nextObject]

theorem slot?_push (world : World) (record : ObjectRecord) (other : Dbref) :
    (world.push record).slot? other =
      if other = world.nextObject then some record else world.slot? other := by
  cases there : other.index? with
  | none =>
      have apart : other ≠ world.nextObject := fun same => by simp [same, nextObject] at there
      simp [slot?, there, apart]
  | some index =>
      obtain rfl := Dbref.index?_eq_some.mp there
      rw [slot?_ofIndex, slot?_ofIndex, push]
      dsimp only
      by_cases next : index = world.objects.length
      · rw [next, if_pos (by rfl), List.getElem?_concat_length]
      · have apart : Dbref.ofIndex index ≠ world.nextObject :=
          fun same => next (Dbref.ofIndex_injective same)
        rw [if_neg apart, List.getElem?_append]
        split
        · rfl
        · rw [List.getElem?_eq_none (by simp; omega), List.getElem?_eq_none (by omega)]

/-- A pushed record that looks like none at all changes nothing for those who look. -/
theorem elim_push {α : Type} {view : ObjectRecord → α} {default : α} {record : ObjectRecord}
    (blank : view record = default) (other : Dbref) :
    ((world.push record).slot? other).elim default view =
      (world.slot? other).elim default view := by
  rw [slot?_push]
  split
  · next next =>
    rw [next, slot?_nextObject]
    exact blank
  · rfl

variable (name : Text) (kind : ObjectKind) (owner : Dbref) (now : Int)

theorem location_push_new (other : Dbref) :
    (world.push (.new name kind owner now)).location other = world.location other :=
  elim_push (by rfl) other

theorem inside_push_new (place : Dbref) (asExit : Bool) :
    (world.push (.new name kind owner now)).inside place asExit = world.inside place asExit :=
  elim_push (by cases asExit <;> rfl) place

theorem parentsOf_push_new (other : Dbref) :
    (world.push (.new name kind owner now)).parentsOf other = world.parentsOf other :=
  elim_push (by rfl) other

theorem childrenOf_push_new (other : Dbref) :
    (world.push (.new name kind owner now)).childrenOf other = world.childrenOf other :=
  elim_push (by rfl) other

theorem isExit_push {record : ObjectRecord} (apart : other ≠ world.nextObject) :
    (world.push record).isExit other = world.isExit other := by
  unfold isExit
  rw [slot?_push, if_neg apart]

/-! ## Letting go -/

/-- What letting an object go makes of the record of another one, or of its own. -/
theorem slot?_letGo {record : ObjectRecord} (found : world.slot? object = some record)
    (other : Dbref) :
    (world.letGo object).slot? other = (world.slot? other).map fun slot =>
      let emptied := if other = object then slot.emptied else slot
      let orphaned := if other ∈ record.parents then emptied.dropChild object else emptied
      let disowned := if other ∈ record.children then orphaned.dropParent object else orphaned
      if other ∈ record.contents ++ record.exits then disowned.withLocation .nothing
      else disowned := by
  unfold letGo
  rw [found]
  dsimp only
  rw [slot?_modifyAll (fun _ => by rfl), slot?_modifyAll fun record => ?dropParent,
    slot?_modifyAll fun record => ?dropChild, slot?_modify]
  case dropParent => simp [ObjectRecord.dropParent, List.filter_filter]
  case dropChild => simp [ObjectRecord.dropChild, List.filter_filter]
  simp only [Option.map_map]
  rfl

theorem letGo_of_slot?_none (missing : world.slot? object = none) :
    world.letGo object = world := by
  unfold letGo
  rw [missing]

theorem location_letGo (world : World) (object other : Dbref) :
    (world.letGo object).location other =
      if other ∈ world.inside object false ++ world.inside object true then .nothing
      else world.location other := by
  cases found : world.slot? object with
  | none => simp [letGo_of_slot?_none found, inside, found]
  | some record =>
      have listed : world.inside object false ++ world.inside object true =
          record.contents ++ record.exits := by simp [inside, found, ObjectRecord.inside]
      rw [listed]
      unfold location
      rw [slot?_letGo found]
      cases world.slot? other with
      | none => simp
      | some slot =>
          simp [apply_ite ObjectRecord.location, ObjectRecord.withLocation]

theorem isExit_letGo (world : World) (object other : Dbref) :
    (world.letGo object).isExit other = world.isExit other := by
  have same : world.SameIn ObjectRecord.isExit (world.letGo object) := by
    unfold letGo
    split
    · exact .refl _ world
    · refine SameIn.foldl (fun _ inside kept => kept.modify inside fun _ => by rfl) ?_ _
      refine SameIn.foldl (fun _ child kept => kept.modify child fun _ => by rfl) ?_ _
      refine SameIn.foldl (fun _ parent kept => kept.modify parent fun _ => by rfl) ?_ _
      exact (SameIn.refl _ world).modify object fun _ => by rfl
  exact same.elim false other

theorem inside_letGo (world : World) (object place : Dbref) (asExit : Bool) :
    (world.letGo object).inside place asExit =
      if place = object then [] else world.inside place asExit := by
  cases found : world.slot? object with
  | none =>
      rw [letGo_of_slot?_none found]
      split
      · next same => rw [same, inside, found, Option.elim_none]
      · rfl
  | some record =>
      unfold inside
      rw [slot?_letGo found]
      cases world.slot? place with
      | none => simp
      | some slot =>
          simp [apply_ite fun record : ObjectRecord => record.inside asExit]

theorem parentsOf_letGo (world : World) (object other : Dbref) :
    (world.letGo object).parentsOf other =
      if other = object then []
      else if other ∈ world.childrenOf object then (world.parentsOf other).filter (· ≠ object)
      else world.parentsOf other := by
  cases found : world.slot? object with
  | none =>
      rw [letGo_of_slot?_none found, childrenOf, found, Option.elim_none]
      split
      · next same => rw [same, parentsOf, found, Option.elim_none]
      · simp
  | some record =>
      have listed : world.childrenOf object = record.children := by simp [childrenOf, found]
      rw [listed]
      unfold parentsOf
      rw [slot?_letGo found]
      cases world.slot? other with
      | none => simp
      | some slot =>
          by_cases same : other = object <;> simp [same, apply_ite ObjectRecord.parents]

theorem childrenOf_letGo (world : World) (object other : Dbref) :
    (world.letGo object).childrenOf other =
      if other = object then []
      else if other ∈ world.parentsOf object then (world.childrenOf other).filter (· ≠ object)
      else world.childrenOf other := by
  cases found : world.slot? object with
  | none =>
      rw [letGo_of_slot?_none found, parentsOf, found, Option.elim_none]
      split
      · next same => rw [same, childrenOf, found, Option.elim_none]
      · simp
  | some record =>
      have listed : world.parentsOf object = record.parents := by simp [parentsOf, found]
      rw [listed]
      unfold childrenOf
      rw [slot?_letGo found]
      cases world.slot? other with
      | none => simp
      | some slot =>
          by_cases same : other = object <;> simp [same, apply_ite ObjectRecord.children]

end World
end WorldLocks
