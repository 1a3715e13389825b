import WorldLocks.Proofs.Table

/-! Operations on attributes change nothing of an object but what it declares and stores.  So every
view that does not look there shows the same before and after them. -/

set_option autoImplicit false

namespace WorldLocks

/-- A record without what it declares and stores. -/
def ObjectRecord.bare (record : ObjectRecord) : ObjectRecord :=
  { record with declared := [], values := [] }

namespace World

/-- Whether two worlds differ at most in what their objects declare and store. -/
abbrev SameBare (first second : World) : Prop := first.SameIn ObjectRecord.bare second

namespace SameBare

variable {start world : World}

theorem release (same : start.SameBare world) (key : AttrKey) :
    start.SameBare (world.release key) := by
  cases key with
  | builtin which => exact same
  | declared serial => exact same.of_objects_eq rfl

theorem releaseAll (same : start.SameBare world) (values : List AttrValue) :
    start.SameBare (world.releaseAll values) :=
  SameIn.foldl (fun _ entry kept => SameBare.release kept entry.key) same values

theorem addRef {key : AttrKey} {counted : World} (same : start.SameBare world)
    (added : world.addRef key = .ok counted) : start.SameBare counted := by
  cases key with
  | builtin which => exact Except.ok.inj added ▸ same
  | declared serial =>
      unfold World.addRef at added
      dsimp only at added
      split at added
      · exact Except.ok.inj added ▸ same.of_objects_eq rfl
      · cases added

theorem addRefs (same : start.SameBare world) (values : List AttrValue) :
    start.SameBare (world.addRefs values).2 := by
  induction values generalizing world with
  | nil => exact same
  | cons entry values ih =>
      unfold World.addRefs
      split
      · exact same
      · next counted added => exact ih (same.addRef added)

theorem flush (same : start.SameBare world) : start.SameBare world.flush := same.of_objects_eq rfl

/-! ## Values -/

theorem setValue (same : start.SameBare world) (object : Dbref) (handle : AttrDef) (value : Text) :
    start.SameBare (world.setValue object handle value).2 := by
  unfold World.setValue
  dsimp only
  split
  · exact same
  · split
    · exact same.flush
    · split
      · exact same.flush
      · exact SameBare.release (same.flush.modify object fun _ => by rfl) handle.key
      · exact same.flush.modify object fun _ => by rfl
      · split
        · exact same.flush
        · next counted added => exact (same.flush.addRef added).modify object fun _ => by rfl

theorem clearKey (same : start.SameBare world) (object : Dbref) (key : AttrKey) :
    start.SameBare (world.clearKey object key).2 := by
  have cleared : start.SameBare (world.flush.modify object (World.dropValues key)) :=
    same.flush.modify object fun _ => by rfl
  unfold World.clearKey
  dsimp only
  split
  · exact same.flush
  · split
    · exact cleared.release key
    · exact cleared

theorem freeValues (same : start.SameBare world) (object : Dbref) :
    start.SameBare (world.freeValues object).2 := by
  unfold World.freeValues
  dsimp only
  split
  · exact same.flush
  · exact SameBare.releaseAll (same.flush.modify object fun _ => by rfl) _

theorem copyNoninherited (same : start.SameBare world) (destination source : Dbref) :
    start.SameBare (world.copyNoninherited destination source).2 := by
  unfold World.copyNoninherited
  split
  · exact same
  · refine Outcome.andThen_world start.SameBare (same.freeValues destination) fun _ _ freed => ?_
    refine Outcome.andThen_world start.SameBare (SameBare.addRefs freed _) fun _ _ counted => ?_
    exact counted.modify destination fun _ => by rfl

/-! ## Declarations -/

theorem declareAttr (same : start.SameBare world) (object : Dbref) (name : Text)
    (flags : FlagSet AttrFlag) : start.SameBare (world.declareAttr object name flags).2 := by
  unfold World.declareAttr
  split
  · exact same
  · split
    · exact same
    · split
      · dsimp only [done]
        split
        · exact same.of_objects_eq rfl
        · exact same
      · split
        · exact same
        · split
          · exact same
          · have registered : start.SameBare
                { world with registry := (world.registry.declare name flags object).2 } :=
              same.of_objects_eq rfl
            exact SameIn.modify registered object fun _ => by rfl

theorem undeclareAttr (same : start.SameBare world) (object : Dbref) (name : Text) :
    start.SameBare (world.undeclareAttr object name).2 := by
  unfold World.undeclareAttr
  split
  · exact same
  · split
    · exact same
    · refine SameBare.release (SameIn.foldl (fun _ member kept => ?_) ?_ _) _
      · exact SameBare.clearKey kept member _
      · exact same.modify object fun _ => by rfl

theorem undeclareAll (same : start.SameBare world) (object : Dbref) (names : List Text) :
    start.SameBare (world.undeclareAll object names).2 := by
  induction names generalizing world with
  | nil => exact same
  | cons name later ih =>
      exact Outcome.andThen_world start.SameBare (same.undeclareAttr object name)
        fun _ _ kept => ih kept

end SameBare
end World
end WorldLocks
