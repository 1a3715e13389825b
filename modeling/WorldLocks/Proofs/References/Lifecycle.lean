import WorldLocks.Lock.Setting
import WorldLocks.Proofs.References.Definitions
import WorldLocks.World.Lifecycle

/-! The other operations move objects about without touching what refers to definitions, or are
made of operations that keep the counts. -/

set_option autoImplicit false

namespace WorldLocks.World

variable {world : World} {loose : Nat → Nat}

/-! ## Operations that leave the ledger alone -/

theorem SameLedger.modifyAll (world : World) (objects : List Dbref)
    {change : ObjectRecord → ObjectRecord}
    (keeps : ∀ record, (change record).ledger = record.ledger) :
    world.SameLedger (objects.foldl (fun world object => world.modify object change) world) := by
  induction objects generalizing world with
  | nil => exact .refl world
  | cons object objects ih => exact (SameLedger.modify world object keeps).trans (ih _)

theorem SameLedger.putInto (world : World) (object place : Dbref) :
    world.SameLedger (world.putInto object place) := by
  unfold World.putInto
  split
  · next record _ =>
    refine (SameLedger.modify _ place fun record => ?_).trans
      (SameLedger.modify _ object fun _ => by rfl)
    unfold ObjectRecord.receive
    split <;> rfl
  · exact .refl world

theorem SameLedger.takeOut (world : World) (object : Dbref) :
    world.SameLedger (world.takeOut object) := by
  unfold World.takeOut
  split
  · exact (SameLedger.modify _ _ fun _ => by rfl).trans (SameLedger.modify _ object fun _ => by rfl)
  · exact .refl world

theorem SameLedger.letGo (world : World) (object : Dbref) :
    world.SameLedger (world.letGo object) := by
  unfold World.letGo
  split
  · exact .refl world
  · exact (((SameLedger.modify _ object fun _ => by rfl).trans
      (SameLedger.modifyAll _ _ fun _ => by rfl)).trans
      (SameLedger.modifyAll _ _ fun _ => by rfl)).trans (SameLedger.modifyAll _ _ fun _ => by rfl)

theorem Balanced.modifySlot (balanced : world.Balanced loose) (object : Dbref)
    {change : ObjectRecord → ObjectRecord}
    (keeps : ∀ record, (change record).ledger = record.ledger) :
    (world.modifySlot object change).2.Balanced loose :=
  modifySlot_world (·.Balanced loose) balanced (balanced.sameLedger (.modify world object keeps))

theorem Balanced.moveTo (balanced : world.Balanced loose) (object destination : Dbref) :
    (world.moveTo object destination).2.Balanced loose := by
  have takenOut := balanced.flush.sameLedger (.takeOut _ object)
  refine ifExists_world (·.Balanced loose) balanced ?_
  split
  · exact takenOut
  · refine ifExists_world (·.Balanced loose) balanced ?_
    split
    · exact balanced
    · exact takenOut.sameLedger (.putInto _ object destination)

theorem Balanced.addParent (balanced : world.Balanced loose) (child parent : Dbref) :
    (world.addParent child parent).2.Balanced loose := by
  refine ifExists_world (·.Balanced loose) balanced
    (ifExists_world (·.Balanced loose) balanced ?_)
  split
  · exact balanced
  · dsimp only
    split
    · exact balanced.flush
    · exact (balanced.flush.sameLedger (.modify _ child fun _ => by rfl)).sameLedger
        (.modify _ parent fun _ => by rfl)

theorem Balanced.addParents (balanced : world.Balanced loose) (child : Dbref)
    (parents : List Dbref) : (world.addParents child parents).2.Balanced loose := by
  induction parents generalizing world with
  | nil => exact balanced
  | cons parent later ih =>
      exact Outcome.andThen_world (·.Balanced loose) (balanced.addParent child parent)
        fun _ _ kept => ih kept

theorem Balanced.removeParent (balanced : world.Balanced loose) (child parent : Dbref) :
    (world.removeParent child parent).2.Balanced loose :=
  Outcome.andThen_world (·.Balanced loose) (balanced.flush.modifySlot child fun _ => by rfl)
    fun _ _ kept => kept.modifySlot parent fun _ => by rfl

theorem Balanced.setFlag (balanced : world.Balanced loose) (object : Dbref) (flag : ObjectFlag)
    (on : Bool) : (world.setFlag object flag on).2.Balanced loose :=
  balanced.flush.modifySlot object fun _ => by rfl

theorem Balanced.setZone (balanced : world.Balanced loose) (object zone : Dbref) :
    (world.setZone object zone).2.Balanced loose :=
  ifNothingOrExists_world (·.Balanced loose) balanced
    (balanced.flush.modifySlot object fun _ => by rfl)

theorem Balanced.setLink (balanced : world.Balanced loose) (object link : Dbref) :
    (world.setLink object link).2.Balanced loose :=
  balanced.flush.modifySlot object fun _ => by rfl

theorem Balanced.setOwner (balanced : world.Balanced loose) (object owner : Dbref) :
    (world.setOwner object owner).2.Balanced loose :=
  ifExists_world (·.Balanced loose) balanced (balanced.flush.modifySlot object fun _ => by rfl)

theorem Balanced.touch (balanced : world.Balanced loose) (object : Dbref) :
    (world.touch object).2.Balanced loose :=
  balanced.flush.modifySlot object fun _ => by rfl

/-! ## Creating and destroying -/

/-- A new record refers to nothing. -/
theorem Balanced.push (balanced : world.Balanced loose) (name : Text) (kind : ObjectKind)
    (owner : Dbref) (now : Int) : (world.push (.new name kind owner now)).Balanced loose := by
  have none : ∀ serial, (ObjectRecord.new name kind owner now).references serial = 0 := by
    intro serial
    simp [ObjectRecord.references, ObjectRecord.new]
  refine ⟨balanced.wellFormed, fun serial => ?_, fun record member => ?_⟩
  · have same : (world.push (.new name kind owner now)).references serial =
        world.references serial := by
      simp [World.references, World.push, none]
    rw [same]
    exact balanced.counts serial
  · rcases List.mem_append.mp member with old | new
    · exact balanced.tidy record old
    · obtain rfl := List.mem_singleton.mp new
      exact ⟨List.nodup_nil, by simp [ObjectRecord.new]⟩

theorem Balanced.create (balanced : world.Balanced loose) (name : Text) (kind : ObjectKind)
    (owner location : Dbref) : (world.create name kind owner location).2.Balanced loose := by
  refine ifNothingOrExists_world (·.Balanced loose) balanced
    (ifNothingOrExists_world (·.Balanced loose) balanced ?_)
  split
  · exact balanced.flush
  · dsimp only [done]
    split
    · exact balanced.flush.push ..
    · exact (balanced.flush.push ..).sameLedger (.putInto ..)

theorem create_eq_nextObject {name : Text} {kind : ObjectKind} {owner location object : Dbref}
    (created : (world.create name kind owner location).1 = .ok object) :
    object = world.nextObject := by
  have made := ifNothingOrExists_ok (ifNothingOrExists_ok created)
  split at made
  · cases made
  · exact (Except.ok.inj made).symm

theorem Balanced.clone (balanced : world.Balanced loose) (source owner location : Dbref) :
    (world.clone source owner location).2.Balanced loose := by
  unfold World.clone
  split
  · exact balanced
  · next template living =>
    have created := balanced.create template.name template.kind owner location
    cases outcome : world.create template.name template.kind owner location with
    | mk result grown =>
        rw [outcome] at created
        cases result with
        | error refusal => exact created
        | ok object =>
            have apart : object ≠ source := by
              rw [create_eq_nextObject (congrArg Prod.fst outcome)]
              exact (ne_nextObject (record?_eq_some.mp living).1).symm
            have likened := created.sameLedger (.modify grown object fun record => show
              { record with flags := template.flags, zone := template.zone,
                            link := template.link }.ledger = record.ledger from rfl)
            have related := likened.addParents object template.parents
            change (Outcome.andThen (World.addParents _ _ _) _).2.Balanced loose
            refine Outcome.andThen_world (·.Balanced loose) related fun _ _ kept => ?_
            exact Outcome.andThen_world (·.Balanced loose) (kept.copyNoninherited apart)
              fun _ _ copied => copied

theorem Balanced.undeclareAll (balanced : world.Balanced loose) (object : Dbref)
    (names : List Text) : (world.undeclareAll object names).2.Balanced loose := by
  induction names generalizing world with
  | nil => exact balanced
  | cons name later ih =>
      exact Outcome.andThen_world (·.Balanced loose) (balanced.undeclareAttr object name)
        fun _ _ kept => ih kept

theorem Balanced.destroy (balanced : world.Balanced loose) (object : Dbref) :
    (world.destroy object).2.Balanced loose := by
  unfold World.destroy
  split
  · exact balanced
  · refine ifExists_world (·.Balanced loose) balanced ?_
    refine Outcome.andThen_world (·.Balanced loose) (balanced.undeclareAll object _)
      fun _ _ undeclared => ?_
    refine Outcome.andThen_world (·.Balanced loose) (undeclared.freeValues object)
      fun _ _ freed => ?_
    exact ((freed.sameLedger (.takeOut _ object)).sameLedger (.letGo _ object)).sameLedger
      (.modify _ object fun _ => by rfl)

/-! ## Setting locks -/

theorem Balanced.setLock (balanced : world.Balanced loose) (limits : Limits) (player thing : Dbref)
    (lock : AttrDef) (text : Text) :
    (world.setLock limits player thing lock text).world.Balanced loose := by
  unfold World.setLock
  dsimp only
  split
  · exact balanced
  · exact Outcome.andThen_world (·.Balanced loose) (balanced.setValue thing lock _)
      fun _ _ stored => stored.touch thing

end WorldLocks.World
