import WorldLocks.Operation
import WorldLocks.Proofs.Relations.Basic

/-! What operations do to places and descent, said once.  Every operation, refused or not, comes
down to a few kinds of steps; the conditions under which an operation takes a step are part of the
step. -/

set_option autoImplicit false

namespace WorldLocks

namespace World

/-- One step of an operation, as far as places and descent are concerned. -/
inductive Rearranges : World → World → Prop where
  | unrelated {first second : World} (same : first.SameRelations second) : Rearranges first second
  | created (world : World) (name : Text) (kind : ObjectKind) (owner : Dbref) (now : Int) :
      Rearranges world (world.push (.new name kind owner now))
  | putIn {world : World} {object place : Dbref} (nowhere : world.location object = .nothing)
      (present : (world.slot? object).isSome) (there : (world.slot? place).isSome)
      (outside : object ∉ world.outward place) : Rearranges world (world.putInto object place)
  | takenOut (world : World) (object : Dbref) : Rearranges world (world.takeOut object)
  | adopted {world : World} {child parent : Dbref} (present : (world.slot? child).isSome)
      (there : (world.slot? parent).isSome) (apart : ¬ world.Descends parent child) :
      Rearranges world (world.linkParent child parent)
  | disowned (world : World) (child parent : Dbref) :
      Rearranges world (world.unlinkParent child parent)
  | letGo (world : World) (object : Dbref) : Rearranges world (world.letGo object)

/-- Whether one world comes from another by such steps. -/
abbrev Rearranged : World → World → Prop := Relation.ReflTransGen Rearranges

namespace Rearranged

variable {start world : World}

theorem step (steps : start.Rearranged world) {next : World} (last : world.Rearranges next) :
    start.Rearranged next :=
  Relation.ReflTransGen.tail steps last

theorem unrelated (steps : start.Rearranged world) {next : World}
    (same : world.SameRelations next) : start.Rearranged next :=
  steps.step (.unrelated same)

theorem bare (steps : start.Rearranged world) {next : World} (same : world.SameBare next) :
    start.Rearranged next :=
  steps.unrelated (.of_sameBare same)

theorem flush (steps : start.Rearranged world) : start.Rearranged world.flush :=
  steps.unrelated (.of_objects_eq rfl)

theorem modifySlot (steps : start.Rearranged world) (object : Dbref)
    {change : ObjectRecord → ObjectRecord}
    (placing : ∀ record, (change record).placing = record.placing)
    (kinship : ∀ record, (change record).kinship = record.kinship) :
    start.Rearranged (world.flush.modifySlot object change).2 :=
  steps.flush.unrelated (.modifySlot world.flush object placing kinship)

/-! ## Places -/

theorem mem_outward_of_takeOut {object place target : Dbref}
    (member : target ∈ (world.takeOut object).outward place) : target ∈ world.outward place := by
  rw [mem_outward] at member ⊢
  refine Relation.ReflTransGen.mono (fun inner outer lies => ?_) _ _ member
  rw [liesIn_iff, location_takeOut] at lies
  obtain ⟨located, somewhere⟩ := lies
  split at located
  · exact absurd located.symm somewhere
  · exact liesIn_iff.mpr ⟨located, somewhere⟩

theorem moveTo (steps : start.Rearranged world) (object destination : Dbref) :
    start.Rearranged (world.moveTo object destination).2 := by
  refine ifExists_world_of_isValid start.Rearranged steps fun valid => ?_
  have present : (world.flush.slot? object).isSome := isSome_slot?_of_isValid valid
  have out : start.Rearranged (world.flush.takeOut object) := steps.flush.step (.takenOut _ object)
  split
  · exact out
  · refine ifExists_world_of_isValid start.Rearranged steps fun validPlace => ?_
    have there : (world.flush.slot? destination).isSome := isSome_slot?_of_isValid validPlace
    split
    · exact steps
    · next recursive =>
      have apart : object ∉ world.flush.outward destination := by
        change object ∉ world.outward destination
        simpa [List.contains_iff_mem] using recursive
      have kept := kinship_takeOut world.flush object
      refine out.step (.putIn ?_ ?_ ?_ fun member => apart (mem_outward_of_takeOut member))
      · rw [location_takeOut, if_pos rfl]
      · rw [kept.isSome_slot?]
        exact present
      · rw [kept.isSome_slot?]
        exact there

/-- A new object is put where it is created, and that is not inside it, since nothing is. -/
theorem create (steps : start.Rearranged world)
    (free : ∀ other, world.location other ≠ world.nextObject) (name : Text) (kind : ObjectKind)
    (owner location : Dbref) : start.Rearranged (world.create name kind owner location).2 := by
  refine ifNothingOrExists_world_of_isValid start.Rearranged steps fun place => ?_
  refine ifNothingOrExists_world start.Rearranged steps ?_
  split
  · exact steps.flush
  · dsimp only [done]
    have pushed := steps.flush.step (.created _ name kind
      (if owner = .nothing then world.nextObject else owner) world.flush.clock)
    split
    · exact pushed
    · next somewhere =>
      have there : (world.flush.slot? location).isSome :=
        isSome_slot?_of_isValid (place.resolve_left somewhere)
      have missing := slot?_nextObject world.flush
      have apart : location ≠ world.flush.nextObject := fun same => by simp [same, missing] at there
      refine pushed.step (.putIn ?_ ?_ ?_ fun member => ?_)
      · rw [location_push_new]
        exact location_of_slot?_none missing
      · rw [slot?_push]
        exact if_pos rfl ▸ rfl
      · rw [slot?_push, if_neg apart]
        exact there
      · cases mem_outward.mp member with
        | refl => exact apart rfl
        | tail _ last =>
            have located := (liesIn_iff.mp last).1
            rw [location_push_new] at located
            exact free _ located

/-! ## Parents -/

theorem addParent (steps : start.Rearranged world) (child parent : Dbref) :
    start.Rearranged (world.addParent child parent).2 := by
  refine ifExists_world_of_isValid start.Rearranged steps fun valid => ?_
  refine ifExists_world_of_isValid start.Rearranged steps fun validParent => ?_
  split
  · exact steps
  · next unrelated =>
    dsimp only
    split
    · exact steps.flush
    · refine steps.flush.step (.adopted (isSome_slot?_of_isValid valid)
        (isSome_slot?_of_isValid validParent) fun descends => ?_)
      exact unrelated (isA_iff.mpr (.inr descends))

theorem addParents (steps : start.Rearranged world) (child : Dbref) (parents : List Dbref) :
    start.Rearranged (world.addParents child parents).2 := by
  induction parents generalizing world with
  | nil => exact steps
  | cons parent later ih =>
      exact Outcome.andThen_world start.Rearranged (steps.addParent child parent)
        fun _ _ rearranged => ih rearranged

theorem removeParent (steps : start.Rearranged world) (child parent : Dbref) :
    start.Rearranged (world.removeParent child parent).2 := by
  have unlinked : start.Rearranged (world.flush.unlinkParent child parent) :=
    steps.flush.step (.disowned _ child parent)
  unfold World.removeParent World.modifySlot
  split
  · unfold Outcome.andThen
    dsimp only [done]
    split
    · exact unlinked
    · next missing =>
      rw [Option.not_isSome_iff_eq_none] at missing
      rwa [unlinkParent, modify_of_slot?_none missing] at unlinked
  · exact steps.flush

/-! ## Objects -/

theorem clone (steps : start.Rearranged world)
    (free : ∀ other, world.location other ≠ world.nextObject) (source owner location : Dbref) :
    start.Rearranged (world.clone source owner location).2 := by
  unfold World.clone
  split
  · exact steps
  · refine Outcome.andThen_world start.Rearranged (steps.create free ..) fun object _ made => ?_
    refine Outcome.andThen_world start.Rearranged (addParents ?_ object _) fun _ _ related => ?_
    · exact made.unrelated (.modify _ object (fun _ => by rfl) fun _ => by rfl)
    · refine Outcome.andThen_world start.Rearranged ?_ fun _ _ copied => copied
      exact related.bare (SameBare.copyNoninherited (.refl _ _) object source)

theorem destroy (steps : start.Rearranged world) (object : Dbref) :
    start.Rearranged (world.destroy object).2 := by
  unfold World.destroy
  split
  · exact steps
  · refine ifExists_world start.Rearranged steps ?_
    refine Outcome.andThen_world start.Rearranged ?_ fun _ _ undeclared => ?_
    · exact steps.bare (SameBare.undeclareAll (.refl _ _) object _)
    · refine Outcome.andThen_world start.Rearranged ?_ fun _ freed released => ?_
      · exact undeclared.bare (SameBare.freeValues (.refl _ _) object)
      · refine ((released.step (.takenOut freed object)).step (.letGo _ object)).unrelated ?_
        exact .modify _ object (fun _ => by rfl) fun _ => by rfl

theorem setLock (steps : start.Rearranged world) (limits : Limits) (player thing : Dbref)
    (lock : AttrDef) (text : Text) :
    start.Rearranged (world.setLock limits player thing lock text).world := by
  unfold World.setLock
  dsimp only
  split
  · exact steps
  · refine Outcome.andThen_world start.Rearranged ?_ fun _ _ stored => ?_
    · exact steps.bare (SameBare.setValue (.refl _ _) thing lock _)
    · exact stored.modifySlot thing (fun _ => by rfl) fun _ => by rfl

/-- Every operation comes down to the steps, if nothing is where the next object will be. -/
theorem perform (steps : start.Rearranged world)
    (free : ∀ other, world.location other ≠ world.nextObject) (operation : Operation) :
    start.Rearranged (operation.perform world).world := by
  cases operation with
  | create name kind owner location => exact steps.create free name kind owner location
  | clone source owner location => exact steps.clone free source owner location
  | destroy object => exact steps.destroy object
  | moveTo object destination => exact steps.moveTo object destination
  | addParent child parent => exact steps.addParent child parent
  | removeParent child parent => exact steps.removeParent child parent
  | setFlag object flag on => exact steps.modifySlot object (fun _ => by rfl) fun _ => by rfl
  | setZone object zone =>
      refine ifNothingOrExists_world start.Rearranged steps ?_
      exact steps.modifySlot object (fun _ => by rfl) fun _ => by rfl
  | setLink object link => exact steps.modifySlot object (fun _ => by rfl) fun _ => by rfl
  | setOwner object owner =>
      refine ifExists_world start.Rearranged steps ?_
      exact steps.modifySlot object (fun _ => by rfl) fun _ => by rfl
  | touch object => exact steps.modifySlot object (fun _ => by rfl) fun _ => by rfl
  | declareAttr object name flags =>
      exact steps.bare (SameBare.declareAttr (.refl _ _) object name flags)
  | undeclareAttr object name =>
      exact steps.bare (SameBare.undeclareAttr (.refl _ _) object name)
  | setValue object handle value =>
      exact steps.bare (SameBare.setValue (.refl _ _) object handle value)
  | clearValue object handle =>
      exact steps.bare (SameBare.clearKey (.refl _ _) object handle.key)
  | freeValues object => exact steps.bare (SameBare.freeValues (.refl _ _) object)
  | copyNoninherited destination source =>
      exact steps.bare (SameBare.copyNoninherited (.refl _ _) destination source)
  | setLock limits player thing lock text => exact steps.setLock limits player thing lock text

end Rearranged
end World
end WorldLocks
