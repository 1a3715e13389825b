import WorldLocks.Proofs.Walks
import WorldLocks.World.Control
import WorldLocks.World.Naming

/-! Worlds that differ in values.  Who exists, where, of what descent and how it is shown does not
depend on the values that are stored. -/

set_option autoImplicit false

namespace WorldLocks

def ObjectRecord.withValues (record : ObjectRecord) (values : List AttrValue) : ObjectRecord :=
  { record with values := values }

namespace World

variable {first second world : World}

def valuesOf (world : World) (object : Dbref) : List AttrValue :=
  (world.slot? object).elim [] (·.values)

/-- Whether two worlds have the same objects but for the values that these store. -/
abbrev SameButValues (first second : World) : Prop := first.SameIn (·.withValues []) second

namespace SameButValues

theorem slot?_eq (same : first.SameButValues second) (object : Dbref) :
    second.slot? object =
      (first.slot? object).map (·.withValues (second.valuesOf object)) := by
  have slots := same.slot? object
  unfold valuesOf
  cases there : second.slot? object with
  | none =>
      rw [there, Option.map_none, eq_comm, Option.map_eq_none_iff] at slots
      rw [slots, Option.map_none]
  | some other =>
      rw [there, Option.map_some, eq_comm] at slots
      obtain ⟨record, here, equal⟩ := Option.map_eq_some_iff.mp slots
      rw [here, Option.map_some]
      exact congrArg some (congrArg (·.withValues other.values) equal.symm)

theorem record?_eq (same : first.SameButValues second) (object : Dbref) :
    second.record? object =
      (first.record? object).map (·.withValues (second.valuesOf object)) := by
  unfold record?
  rw [same.slot?_eq]
  cases first.slot? object with
  | none => rfl
  | some record =>
      cases going : record.hasFlag .going with
      | false =>
          have kept : (record.withValues (second.valuesOf object)).hasFlag .going = false := going
          simp [Option.filter, going, kept]
      | true =>
          have kept : (record.withValues (second.valuesOf object)).hasFlag .going = true := going
          simp [Option.filter, going, kept]

theorem isValid_eq (same : first.SameButValues second) : second.isValid = first.isValid := by
  funext object
  rw [isValid, isValid, same.record?_eq, Option.isSome_map]

theorem ownerOf_eq (same : first.SameButValues second) : second.ownerOf = first.ownerOf := by
  funext object
  rw [ownerOf, ownerOf, same.slot?_eq]
  cases first.slot? object <;> rfl

theorem hasFlag_eq (same : first.SameButValues second) (flag : ObjectFlag) (object : Dbref) :
    second.hasFlag object flag = first.hasFlag object flag := by
  rw [hasFlag, hasFlag, same.record?_eq]
  cases first.record? object <;> rfl

theorem controls_eq (same : first.SameButValues second) : second.controls = first.controls := by
  funext who what
  rw [controls, controls, same.record?_eq who, same.record?_eq what]
  cases first.record? who <;> cases first.record? what <;> rfl

theorem shown_eq (same : first.SameButValues second) : second.shown = first.shown := by
  funext viewer object
  have wizard : second.isWizard viewer = first.isWizard viewer := same.hasFlag_eq .wizard viewer
  have letters : second.flagLetters object = first.flagLetters object := by
    rw [flagLetters, flagLetters, same.slot?_eq]
    cases first.slot? object <;> rfl
  have numbers (record : ObjectRecord) (values : List AttrValue) :
      second.showsNumber viewer object (record.withValues values) =
        first.showsNumber viewer object record := by
    unfold showsNumber
    rw [same.controls_eq, wizard]
    rfl
  unfold shown
  rw [letters, same.slot?_eq]
  cases first.slot? object with
  | none => rfl
  | some record =>
      dsimp only [Option.map_some]
      rw [numbers]
      rfl

theorem canSee_eq (same : first.SameButValues second) : second.canSee = first.canSee := by
  funext viewer object definition
  have wizard : second.isWizard viewer = first.isWizard viewer := same.hasFlag_eq .wizard viewer
  unfold canSee
  rw [same.record?_eq, same.controls_eq, wizard]
  cases first.record? object <;> rfl

theorem parentsOf_eq (same : first.SameButValues second) :
    second.parentsOf = first.parentsOf := by
  funext object
  rw [parentsOf, parentsOf, same.slot?_eq]
  cases first.slot? object <;> rfl

theorem length_eq (same : first.SameButValues second) :
    second.objects.length = first.objects.length := by
  simpa using congrArg List.length same

theorem isA_eq (same : first.SameButValues second) : second.isA = first.isA := by
  funext object ancestor
  rw [Bool.eq_iff_iff, isA_iff, isA_iff]
  unfold Descends IsChildOf
  rw [same.parentsOf_eq]

theorem surroundings_eq (same : first.SameButValues second) :
    second.surroundings = first.surroundings := by
  funext actor
  unfold surroundings
  rw [same.record?_eq actor]
  cases first.record? actor with
  | none => rfl
  | some record =>
      have location (values : List AttrValue) :
          (record.withValues values).location = record.location := rfl
      dsimp only [Option.map_some]
      rw [location, same.record?_eq record.location]
      cases first.record? record.location <;> rfl

theorem locationOf_eq (same : first.SameButValues second) :
    second.locationOf = first.locationOf := by
  funext object
  unfold locationOf
  rw [same.record?_eq]
  cases first.record? object <;> rfl

theorem computed?_eq (same : first.SameButValues second) (object : Dbref) (record : ObjectRecord)
    (values : List AttrValue) (which : Builtin) :
    second.computed? object (record.withValues values) which =
      first.computed? object record which := by
  have sibling : second.nextSibling object (record.withValues values) =
      first.nextSibling object record := by
    have location : (record.withValues values).location = record.location := rfl
    unfold nextSibling
    rw [location, same.slot?_eq]
    cases first.slot? record.location <;> rfl
  cases which
  case next => exact congrArg (some ·.literal) sibling
  all_goals rfl

end SameButValues
end World
end WorldLocks
